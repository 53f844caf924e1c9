/-!
# SimpleMachine.Numeral

Decimal numerals, in a source text and in what is printed.

- `isNumeral`: an optional sign and one or more ASCII digits.
- `read`: the value of a word that is a numeral of the machine's range. A numeral of more than
  4300 digits is refused before its value is known.
- `text`: the decimal form of an integer.
- `Short`: the integers whose decimal form is not refused for having too many digits.

What fits a register is short. So is the number of things that there are, or that have been done:
lines, instructions, registers, steps. Their decimal form is `text` everywhere; any other integer is
looked at first.
-/

namespace SimpleMachine

def minInt : Int := -2147483648

/-- The greatest integer of a register; it also stands for an operand that cannot be read. -/
def maxInt : Int := 2147483647

namespace Numeral

/-- The longest run of digits, leading zeros included, that is converted to a number or made from
one. -/
def maxDigits : Nat := 4300

structure TooLong where
  digits : Nat
  deriving DecidableEq, Repr

def unsigned : List Char → Bool × List Char
  | '-' :: ds => (true, ds)
  | '+' :: ds => (false, ds)
  | ds => (false, ds)

def isNumeral (word : List Char) : Bool :=
  let ds := (unsigned word).2
  !ds.isEmpty && ds.all Char.isDigit

def signedValue (negative : Bool) (ds : List Char) : Int :=
  if negative then -(Nat.ofDigitChars 10 ds 0 : Int) else Nat.ofDigitChars 10 ds 0

def value (word : List Char) : Int :=
  signedValue (unsigned word).1 (unsigned word).2

/-- The value of a word, or nothing if it is no numeral or its value does not fit a register. -/
def read (word : List Char) : Except TooLong (Option Int) :=
  if isNumeral word then
    let digits := (unsigned word).2.length
    if maxDigits < digits then .error ⟨digits⟩
    else if minInt ≤ value word ∧ value word ≤ maxInt then .ok (some (value word))
    else .ok none
  else .ok none

def text (v : Int) : String :=
  let digits := Nat.toDigits 10 v.natAbs
  String.ofList (if v < 0 then '-' :: digits else digits)

/-- The integer has no more digits than its decimal form may have; the sign does not count. -/
def Short (v : Int) : Prop := (Nat.toDigits 10 v.natAbs).length ≤ maxDigits

instance (v : Int) : Decidable (Short v) := inferInstanceAs (Decidable (_ ≤ _))

@[simp]
theorem read_nil : read [] = .ok none := rfl

theorem read_eq_error_iff {word : List Char} {e : TooLong} :
    read word = .error e ↔
      isNumeral word = true ∧ maxDigits < (unsigned word).2.length ∧
        e = ⟨(unsigned word).2.length⟩ := by
  unfold read
  by_cases hn : isNumeral word = true
  · by_cases hd : maxDigits < (unsigned word).2.length
    · simp [hn, hd, eq_comm]
    · simp only [hn, hd, if_true, if_false]
      split <;> simp
  · simp [hn]

theorem read_eq_some_iff {word : List Char} {v : Int} :
    read word = .ok (some v) ↔
      isNumeral word = true ∧ (unsigned word).2.length ≤ maxDigits ∧ v = value word ∧
        minInt ≤ v ∧ v ≤ maxInt := by
  unfold read
  by_cases hn : isNumeral word = true
  · by_cases hd : maxDigits < (unsigned word).2.length
    · simp only [hn, hd, if_true, reduceCtorEq, false_iff]
      omega
    · simp only [hn, hd, if_true, if_false, true_and]
      split
      · simp only [Except.ok.injEq, Option.some.injEq]
        constructor
        · rintro rfl; exact ⟨by omega, rfl, by assumption⟩
        · rintro ⟨-, rfl, -⟩; rfl
      · simp only [Except.ok.injEq, reduceCtorEq, false_iff]
        rintro ⟨-, rfl, hr⟩
        contradiction
  · simp [hn]

end Numeral
end SimpleMachine
