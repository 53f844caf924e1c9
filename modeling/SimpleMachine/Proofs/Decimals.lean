import Mathlib.Tactic.Ring
import SimpleMachine.Proofs.Words

/-!
# SimpleMachine.Proofs.Decimals

Which words are read as integers, and as which.

* `Digits ds n`, `Denotes word v`: the grammar of signed decimal numerals, with the number that each
  of them stands for. The reader's test and its value are this grammar (`digits_iff`,
  `denotes_iff`), and so a numeral stands for one integer only (`Denotes.unique`).
* `read_eq_some_iff_denotes`: the words that have a value, of any length.
* `padded k word`: the word with more zeros after its sign. What it stands for is the same
  (`denotes_padded`).
* `read_accepts_exactly_decimals`: a word that is not too long is read as the integer that it
  denotes, if that fits a register, and as nothing in every other case.
-/

namespace SimpleMachine
namespace Numeral

/-- A run of ASCII digits and the number for which it stands. The first digit counts ten to the
number of digits after it. -/
inductive Digits : List Char → Nat → Prop where
  | last {d : Nat} : d < 10 → Digits [Nat.digitChar d] d
  | more {d n : Nat} {ds : List Char} :
      d < 10 → Digits ds n → Digits (Nat.digitChar d :: ds) (d * 10 ^ ds.length + n)

/-- A numeral, with a sign or without one, and the integer that it stands for. -/
inductive Denotes : List Char → Int → Prop where
  | bare {ds : List Char} {n : Nat} : Digits ds n → Denotes ds n
  | plus {ds : List Char} {n : Nat} : Digits ds n → Denotes ('+' :: ds) n
  | minus {ds : List Char} {n : Nat} : Digits ds n → Denotes ('-' :: ds) (-n)

/-- The number of ASCII digits in a word. -/
def digitCount (word : List Char) : Nat := word.countP Char.isDigit

/-- The word with `k` more zeros in front of its digits, after the sign if it has one. -/
def padded (k : Nat) : List Char → List Char
  | '-' :: ds => '-' :: (List.replicate k '0' ++ ds)
  | '+' :: ds => '+' :: (List.replicate k '0' ++ ds)
  | ds => List.replicate k '0' ++ ds

variable {word word' ds : List Char} {n k : Nat} {v v' : Int}

/-! ## Runs of digits -/

theorem isDigit_iff_exists {c : Char} : c.isDigit = true ↔ ∃ d < 10, c = Nat.digitChar d := by
  constructor
  · intro h
    have hrange : 48 ≤ c.toNat ∧ c.toNat ≤ 57 := Char.isDigit_iff_toNat.1 h
    refine ⟨c.toNat - 48, by omega, Char.toNat_inj.1 ?_⟩
    rw [Nat.toNat_digitChar_of_lt_ten (by omega)]
    omega
  · rintro ⟨d, hd, rfl⟩
    simpa [Nat.isDigit_digitChar] using hd

/-- What has been read before a run of digits is shifted by the length of the run. -/
theorem ofDigitChars_eq_add (ds : List Char) (m : Nat) :
    Nat.ofDigitChars 10 ds m = m * 10 ^ ds.length + Nat.ofDigitChars 10 ds 0 := by
  induction ds generalizing m with
  | nil => simp
  | cons c ds ih =>
    rw [Nat.ofDigitChars_cons, Nat.ofDigitChars_cons, ih, ih (10 * 0 + _), List.length_cons]
    ring

theorem ofDigitChars_cons_digitChar {d : Nat} (hd : d < 10) (ds : List Char) :
    Nat.ofDigitChars 10 (Nat.digitChar d :: ds) 0 =
      d * 10 ^ ds.length + Nat.ofDigitChars 10 ds 0 := by
  have hvalue : 10 * 0 + ((Nat.digitChar d).toNat - '0'.toNat) = d := by
    rw [Nat.toNat_digitChar_of_lt_ten hd]
    simp
  rw [Nat.ofDigitChars_cons, hvalue, ofDigitChars_eq_add]

/-- A run of digits is known by its characters, and is read from left to right to its number. -/
theorem digits_iff :
    Digits ds n ↔ (ds ≠ [] ∧ ∀ c ∈ ds, c.isDigit = true) ∧ n = Nat.ofDigitChars 10 ds 0 := by
  constructor
  · intro h
    induction h with
    | last hd =>
      have hc := isDigit_iff_exists.2 ⟨_, hd, rfl⟩
      refine ⟨⟨List.cons_ne_nil _ _, by simpa using hc⟩, ?_⟩
      simp [ofDigitChars_cons_digitChar hd]
    | more hd _ ih =>
      have hc := isDigit_iff_exists.2 ⟨_, hd, rfl⟩
      refine ⟨⟨List.cons_ne_nil _ _, List.forall_mem_cons.2 ⟨hc, ih.1.2⟩⟩, ?_⟩
      rw [ofDigitChars_cons_digitChar hd, ih.2]
  · rintro ⟨⟨hne, hdigits⟩, rfl⟩
    induction ds with
    | nil => exact absurd rfl hne
    | cons c ds ih =>
      obtain ⟨hc, hds⟩ := List.forall_mem_cons.1 hdigits
      obtain ⟨d, hd, rfl⟩ := isDigit_iff_exists.1 hc
      rw [ofDigitChars_cons_digitChar hd]
      -- the grammar has no empty run, so that the last digit is a case of its own
      by_cases hlast : ds = []
      · subst hlast
        simpa using Digits.last hd
      · exact .more hd (ih hlast hds)

theorem digits_zeros_append (h : ds ≠ []) :
    Digits (List.replicate k '0' ++ ds) n ↔ Digits ds n := by
  have hzero : ∀ c ∈ List.replicate k '0', c.isDigit = true := by
    intro c hc
    rw [List.eq_of_mem_replicate hc]
    rfl
  have hdigits : (∀ c ∈ List.replicate k '0' ++ ds, c.isDigit = true) ↔
      ∀ c ∈ ds, c.isDigit = true := by
    rw [List.forall_mem_append]
    exact and_iff_right hzero
  rw [digits_iff, digits_iff, hdigits, Nat.ofDigitChars_append, Nat.ofDigitChars_replicate_zero,
    Nat.mul_zero]
  simp [h]

/-! ## Signs -/

theorem isNumeral_iff : isNumeral word = true ↔
    (unsigned word).2 ≠ [] ∧ ∀ c ∈ (unsigned word).2, c.isDigit = true := by
  simp [isNumeral]

theorem denotes_iff_digits : Denotes word v ↔
    ∃ n : Nat, Digits (unsigned word).2 n ∧ v = if (unsigned word).1 then -(n : Int) else n := by
  constructor
  · intro h
    cases h with
    | bare h =>
      have hsign := unsigned_of_isDigit (digits_iff.1 h).1.2
      exact ⟨_, by rwa [hsign], by simp [hsign]⟩
    | plus h => exact ⟨_, h, rfl⟩
    | minus h => exact ⟨_, h, rfl⟩
  · fun_cases unsigned word with
    | case1 ds =>
      rintro ⟨n, h, rfl⟩
      exact .minus h
    | case2 ds =>
      rintro ⟨n, h, rfl⟩
      exact .plus h
    | case3 =>
      rintro ⟨n, h, rfl⟩
      exact .bare h

/-- The reader's test for a numeral and its value are the grammar. -/
theorem denotes_iff : Denotes word v ↔ isNumeral word = true ∧ v = value word := by
  rw [denotes_iff_digits, isNumeral_iff, value, signedValue]
  constructor
  · rintro ⟨n, h, rfl⟩
    obtain ⟨hrun, rfl⟩ := digits_iff.1 h
    exact ⟨hrun, rfl⟩
  · rintro ⟨hrun, rfl⟩
    exact ⟨_, digits_iff.2 ⟨hrun, rfl⟩, rfl⟩

instance (word : List Char) (v : Int) : Decidable (Denotes word v) :=
  decidable_of_iff _ denotes_iff.symm

theorem Denotes.unique (h : Denotes word v) (h' : Denotes word v') : v = v' := by
  rw [(denotes_iff.1 h).2, (denotes_iff.1 h').2]

theorem unsigned_padded (k : Nat) (word : List Char) :
    unsigned (padded k word) =
      ((unsigned word).1, List.replicate k '0' ++ (unsigned word).2) := by
  fun_cases unsigned word with
  | case1 ds => rfl
  | case2 ds => rfl
  | case3 _ hminus hplus =>
    rw [padded.eq_3 k word hminus hplus]
    cases k with
    | zero => exact unsigned.eq_3 word hminus hplus
    | succ k => rfl

/-- Zeros in front of the digits do not change what a word stands for. The word has to have
something after its sign, as otherwise a zero would be its first digit. -/
theorem denotes_padded (h : (unsigned word).2 ≠ []) :
    Denotes (padded k word) v ↔ Denotes word v := by
  simp only [denotes_iff_digits, unsigned_padded, digits_zeros_append h]

/-! ## Words that are not too long -/

theorem length_unsigned (h : isNumeral word = true) :
    (unsigned word).2.length = digitCount word := by
  have hrun := (isNumeral_iff.1 h).2
  have hcount : (unsigned word).2.length = (unsigned word).2.countP Char.isDigit :=
    (List.countP_eq_length.2 hrun).symm
  rw [hcount, digitCount]
  fun_cases unsigned word with
  | case1 ds => rfl
  | case2 ds => rfl
  | case3 => rfl

/-- The words that have a value. -/
theorem read_eq_some_iff_denotes : read word = .ok (some v) ↔
    Denotes word v ∧ FitsRegister v ∧ digitCount word ≤ maxDigits := by
  rw [read_eq_some_iff, denotes_iff]
  constructor
  · rintro ⟨hn, hlen, hv, hfits⟩
    exact ⟨⟨hn, hv⟩, hfits, length_unsigned hn ▸ hlen⟩
  · rintro ⟨⟨hn, hv⟩, hfits, hlen⟩
    exact ⟨hn, length_unsigned hn ▸ hlen, hv, hfits⟩

theorem read_eq_none_iff (h : digitCount word ≤ maxDigits) :
    read word = .ok none ↔ ¬∃ v, Denotes word v ∧ FitsRegister v := by
  cases hr : read word with
  | error e =>
    obtain ⟨hn, hlen, -⟩ := read_eq_error_iff.1 hr
    rw [length_unsigned hn] at hlen
    omega
  | ok result =>
    cases result with
    | none =>
      have hnone : ¬∃ v, Denotes word v ∧ FitsRegister v := by
        rintro ⟨v, hv, hfits⟩
        rw [read_eq_some_iff_denotes.2 ⟨hv, hfits, h⟩] at hr
        cases hr
      exact iff_of_true rfl hnone
    | some v =>
      obtain ⟨hv, hfits, -⟩ := read_eq_some_iff_denotes.1 hr
      exact iff_of_false (by simp) fun hnone => hnone ⟨v, hv, hfits⟩

/-- What a word is read as depends only on what it stands for. -/
theorem read_congr (h : digitCount word ≤ maxDigits) (h' : digitCount word' ≤ maxDigits)
    (hsame : ∀ v, Denotes word v ↔ Denotes word' v) : read word = read word' := by
  by_cases hv : ∃ v, Denotes word' v ∧ FitsRegister v
  · obtain ⟨v, hv, hfits⟩ := hv
    rw [read_eq_some_iff_denotes.2 ⟨hv, hfits, h'⟩,
      read_eq_some_iff_denotes.2 ⟨(hsame v).2 hv, hfits, h⟩]
  · rw [(read_eq_none_iff h').2 hv, (read_eq_none_iff h).2 (by simpa only [hsame] using hv)]

theorem fitsRegister_iff : FitsRegister v ↔ -2 ^ 31 ≤ v ∧ v ≤ 2 ^ 31 - 1 := by
  unfold FitsRegister minInt maxInt
  omega

/-- A word of at most 4300 digits is read as `v` exactly when it is a numeral, with a sign or
without one, that denotes `v`, and `v` is a signed integer of 32 bits; in every other case it is
read as nothing. So the decimal form of such an integer is read as that integer. Leading zeros after
the sign change nothing, as long as the word does not get too long; they lead what stands after the
sign, so there has to be something. -/
theorem read_accepts_exactly_decimals (h : digitCount word ≤ maxDigits) :
    (∀ v, read word = .ok (some v) ↔ Denotes word v ∧ -2 ^ 31 ≤ v ∧ v ≤ 2 ^ 31 - 1) ∧
    (read word = .ok none ↔ ¬∃ v, Denotes word v ∧ -2 ^ 31 ≤ v ∧ v ≤ 2 ^ 31 - 1) ∧
    (∀ v, -2 ^ 31 ≤ v ∧ v ≤ 2 ^ 31 - 1 → read (text v).toList = .ok (some v)) ∧
    ∀ k, (unsigned word).2 ≠ [] → digitCount (padded k word) ≤ maxDigits →
      read (padded k word) = read word := by
  simp only [← fitsRegister_iff]
  refine ⟨fun v => ?_, read_eq_none_iff h, fun v hv => read_text hv, fun k hne hlen => ?_⟩
  · rw [read_eq_some_iff_denotes, and_iff_left h]
  · exact read_congr hlen h fun v => denotes_padded hne

/-- The least integer with zeros in front of it, and the integer after the greatest. -/
theorem read_accepts_exactly_decimals_ends :
    let least := "-002147483648".toList
    let above := "+2147483648".toList
    (digitCount least ≤ maxDigits ∧ digitCount above ≤ maxDigits) ∧
      read least = .ok (some (-2147483648)) ∧ read above = .ok none ∧
      read (text (-2147483648)).toList = .ok (some (-2147483648)) ∧
      read (padded 7 least) = .ok (some (-2147483648)) := by
  intro least above
  have hleast : digitCount least ≤ maxDigits := by decide
  have habove : digitCount above ≤ maxDigits := by decide
  obtain ⟨hsome, -, htext, hpadded⟩ := read_accepts_exactly_decimals hleast
  obtain ⟨-, hnone, -, -⟩ := read_accepts_exactly_decimals habove
  have hvalue : read least = .ok (some (-2147483648)) := (hsome _).2 (by decide)
  have hrefused : ¬∃ v, Denotes above v ∧ -2 ^ 31 ≤ v ∧ v ≤ 2 ^ 31 - 1 := by
    rintro ⟨v, hv, hrange⟩
    obtain rfl : v = 2147483648 := hv.unique (by decide)
    omega
  exact ⟨⟨hleast, habove⟩, hvalue, hnone.2 hrefused, htext _ (by decide),
    (hpadded 7 (by decide) (by decide)).trans hvalue⟩

-- a missing run of digits, a grouped one, a second sign, a line end, and a digit of another script
example : ∀ word ∈ ["", "+", "1_000", "+-1", "5\n", "٣"], read word.toList = .ok none := by decide

end Numeral
end SimpleMachine
