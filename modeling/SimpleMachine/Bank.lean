import SimpleMachine.Numeral

/-!
# SimpleMachine.Bank

The bank of registers: a fixed number of 32-bit signed integers.

- `ofCount`: a bank of zeros, of a number of registers that may be out of range. There is memory for
  every bank that can be addressed.
- `slot?`: the register that an index names, if it names one.
- `read`, `write`: by slot. `get`, `set`: by index, with an error for an index that names no
  register. What is written is wrapped to 32 bits.
-/

namespace SimpleMachine

/-- The number that has the same lowest 32 bits and fits a register. -/
def wrap (v : Int) : Int := (Int32.ofInt v).toInt

inductive BankError where
  | negativeCount (count : Int)
  | hugeCount
  | outOfMemory
  | noSuchRegister (index : Int) (size : Nat)
  deriving DecidableEq, Repr

structure Bank where
  values : Array Int32
  deriving DecidableEq, Repr, Inhabited

namespace Bank

/-- The largest number of registers: indices are signed 64-bit integers. -/
def maxCount : Int := 9223372036854775807

/-- The largest number of registers whose size in bytes, eight for each, is such an integer too. -/
def maxAddressable : Int := 1152921504606846975

def zeros (count : Nat) : Bank := ⟨Array.replicate count 0⟩

/-- A bank with the given number of registers, all zero. That the number is an index is looked at
before the addresses. -/
def ofCount (count : Int) : Except BankError Bank :=
  if count < 0 then .error (.negativeCount count)
  else if maxCount < count then .error .hugeCount
  else if maxAddressable < count then .error .outOfMemory
  else .ok (zeros count.toNat)

def size (b : Bank) : Nat := b.values.size

def slot? (b : Bank) (index : Int) : Option Nat :=
  if 0 ≤ index ∧ index < b.size then some index.toNat else none

/-- The value of a register; zero beyond the bank. -/
def read (b : Bank) (slot : Nat) : Int32 := b.values.getD slot 0

/-- Replaces the value of a register; nothing happens beyond the bank. -/
def write (b : Bank) (slot : Nat) (v : Int32) : Bank := ⟨b.values.setIfInBounds slot v⟩

def get (b : Bank) (index : Int) : Except BankError Int :=
  match b.slot? index with
  | some slot => .ok (b.read slot).toInt
  | none => .error (.noSuchRegister index b.size)

/-- Writes an integer, wrapped to 32 bits, to the register that an index names. -/
def set (b : Bank) (index v : Int) : Except BankError Bank :=
  match b.slot? index with
  | some slot => .ok (b.write slot (Int32.ofInt v))
  | none => .error (.noSuchRegister index b.size)

def clear (b : Bank) : Bank := zeros b.size

def toList (b : Bank) : List Int := b.values.toList.map Int32.toInt

/-- Each register as `index=value`, separated by spaces. -/
def shown (b : Bank) : String :=
  " ".intercalate (b.toList.zipIdx.map fun (v, i) => Numeral.text i ++ "=" ++ Numeral.text v)

@[simp]
theorem size_zeros (count : Nat) : (zeros count).size = count := by simp [zeros, size]

theorem ofCount_of_huge {count : Int} (h : maxCount < count) : ofCount count = .error .hugeCount := by
  have h₀ : ¬ count < 0 := by
    unfold maxCount at h
    omega
  rw [ofCount, if_neg h₀, if_pos h]

theorem ofCount_of_unaddressable {count : Int} (h : maxAddressable < count)
    (hc : count ≤ maxCount) : ofCount count = .error .outOfMemory := by
  have h₀ : ¬ count < 0 := by
    unfold maxAddressable at h
    omega
  rw [ofCount, if_neg h₀, if_neg (Int.not_lt.2 hc), if_pos h]

theorem ofCount_eq_error {count : Int} {e : BankError} (h : ofCount count = .error e) :
    e = .negativeCount count ∨ (e = .hugeCount ∧ maxCount < count) ∨
      (e = .outOfMemory ∧ maxAddressable < count ∧ count ≤ maxCount) := by
  unfold ofCount at h
  split at h
  · cases h; exact .inl rfl
  · split at h
    · next hhuge => cases h; exact .inr (.inl ⟨rfl, hhuge⟩)
    · next hhuge =>
      split at h
      · next hmany => cases h; exact .inr (.inr ⟨rfl, hmany, Int.not_lt.1 hhuge⟩)
      · cases h

theorem count_le_of_ofCount {count : Int} {b : Bank} (h : ofCount count = .ok b) :
    0 ≤ count ∧ count ≤ maxAddressable := by
  unfold ofCount at h
  split at h
  · cases h
  · split at h
    · cases h
    · split at h
      · cases h
      · omega

theorem size_of_ofCount {count : Int} {b : Bank} (h : ofCount count = .ok b) :
    (b.size : Int) = count := by
  unfold ofCount at h
  split at h
  · simp at h
  · split at h
    · simp at h
    · split at h
      · simp at h
      · obtain rfl : zeros count.toNat = b := by simpa using h
        rw [size_zeros]
        omega

@[simp]
theorem size_write (b : Bank) (slot : Nat) (v : Int32) : (b.write slot v).size = b.size := by
  simp [write, size]

@[simp]
theorem size_clear (b : Bank) : b.clear.size = b.size := by simp [clear]

@[simp]
theorem length_toList (b : Bank) : b.toList.length = b.size := by simp [toList, size]

theorem slot?_eq_some_iff {b : Bank} {index : Int} {slot : Nat} :
    b.slot? index = some slot ↔ slot < b.size ∧ index = slot := by
  unfold slot?
  split <;> simp only [Option.some.injEq, reduceCtorEq, false_iff] <;> omega

theorem slot?_eq_none_iff {b : Bank} {index : Int} :
    b.slot? index = none ↔ index < 0 ∨ b.size ≤ index := by
  unfold slot?
  split <;> simp only [reduceCtorEq, false_iff, true_iff] <;> omega

/-- Reading after writing gives the value written, in that register only. -/
theorem read_write {b : Bank} {slot : Nat} (h : slot < b.size) (v : Int32) (k : Nat) :
    (b.write slot v).read k = if k = slot then v else b.read k := by
  unfold size at h
  by_cases hk : k = slot
  · subst hk
    simp [read, write, Array.getD_eq_getD_getElem?, h]
  · simp [read, write, Array.getD_eq_getD_getElem?, hk, Ne.symm hk]

end Bank
end SimpleMachine
