import Mathlib.Algebra.Group.Nat.Defs
import SimpleMachine.Proofs.Operands

/-!
# SimpleMachine.Proofs.Digits

The decimal form of an integer: how long it is, and what is read from it.

* `short_iff`: an integer is short exactly when it lies between two powers of ten. What fits a
  register is short, and so is any index (`short_of_mem_range`, `short_of_natAbs_lt`).
* `leastLong`: the first integer that is not short.
* `read_text`: the decimal form of an integer that fits a register is read as that integer.
-/

namespace SimpleMachine
namespace Numeral

/-! ## Its length -/

theorem short_iff {v : Int} : Short v ↔ v.natAbs < 10 ^ maxDigits :=
  Nat.length_toDigits_le_iff (by decide) (by decide)

theorem short_of_natAbs_lt {v : Int} (h : v.natAbs < 10 ^ 19) : Short v := by
  have hmax : 10 ^ 19 ≤ 10 ^ maxDigits := Nat.pow_le_pow_right (by decide) (by decide)
  exact short_iff.2 (Nat.lt_of_lt_of_le h hmax)

theorem short_of_mem_range {v : Int} (h : minInt ≤ v ∧ v ≤ maxInt) : Short v := by
  unfold minInt maxInt at h
  exact short_of_natAbs_lt (by omega)

/-- The least positive integer that is not short. -/
def leastLong : Int := (10 ^ maxDigits : Nat)

theorem leastLong_pos : 0 < leastLong := Int.ofNat_lt.2 (Nat.pow_pos (by decide))

theorem not_short_leastLong : ¬ Short leastLong := mt short_iff.1 (Nat.lt_irrefl _)

theorem not_short_neg_leastLong : ¬ Short (-leastLong) := by
  rw [Short, Int.natAbs_neg]
  exact not_short_leastLong

/-! ## What is read from it -/

theorem unsigned_of_isDigit {ds : List Char} (h : ∀ c ∈ ds, c.isDigit = true) :
    unsigned ds = (false, ds) := by
  unfold unsigned
  split
  · exact absurd (h '-' (by simp)) (by decide)
  · exact absurd (h '+' (by simp)) (by decide)
  · rfl

theorem isDigit_of_mem_toDigits {n : Nat} {c : Char} (h : c ∈ Nat.toDigits 10 n) :
    c.isDigit = true :=
  Nat.isDigit_of_mem_toDigits (by decide) (by decide) h

theorem unsigned_text (v : Int) :
    unsigned (text v).toList = (decide (v < 0), Nat.toDigits 10 v.natAbs) := by
  rw [text, String.toList_ofList]
  by_cases hv : v < 0
  · simp [hv, unsigned]
  · simp [hv, unsigned_of_isDigit fun c hc => isDigit_of_mem_toDigits hc]

theorem isNumeral_text (v : Int) : isNumeral (text v).toList = true := by
  simp only [isNumeral, unsigned_text, Bool.and_eq_true, Bool.not_eq_true', List.all_eq_true]
  exact ⟨List.isEmpty_eq_false_iff.2 Nat.toDigits_ne_nil, fun c hc => isDigit_of_mem_toDigits hc⟩

theorem value_text (v : Int) : value (text v).toList = v := by
  rw [value, unsigned_text, signedValue, Nat.ofDigitChars_ten_toDigits]
  by_cases hv : v < 0
  · simp only [hv, decide_true, if_true]
    omega
  · simp only [hv, decide_false, Bool.false_eq_true, if_false]
    omega

/-- The decimal form of an integer that fits a register is read as that integer. -/
theorem read_text {v : Int} (h : FitsRegister v) : read (text v).toList = .ok (some v) := by
  refine read_eq_some_iff.2 ⟨isNumeral_text v, ?_, (value_text v).symm, h⟩
  rw [unsigned_text]
  exact short_of_mem_range h

end Numeral
end SimpleMachine
