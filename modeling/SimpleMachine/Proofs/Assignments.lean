import Mathlib.Data.List.Induction
import SimpleMachine.Run

/-!
# SimpleMachine.Proofs.Assignments

Assigning values to registers one after the other comes to the same as assigning to each register its
last value, in the order in which the registers are first met. This holds of the failures as well: an
index that names no register is met for the first time at the same place in both orders.

* `Bank.write_write`, `Bank.write_comm`: a later write to a register replaces an earlier one, and
  writes to two registers can be exchanged.
* `assignAll_amended`: a pair that takes the place of an earlier one may as well come at the end.
* `assignAll_lastValues`: hence the whole list may be replaced by the last values.
-/

namespace SimpleMachine

/-! ## Writing twice -/

namespace Bank

variable (b : Bank)

theorem write_write (slot : Nat) (v w : Int32) : (b.write slot v).write slot w = b.write slot w := by
  simp only [write, Array.setIfInBounds_setIfInBounds]

theorem write_comm {slot other : Nat} (h : slot ≠ other) (v w : Int32) :
    (b.write slot v).write other w = (b.write other w).write slot v := by
  simp only [write, Array.setIfInBounds_comm _ _ h]

@[simp]
theorem slot?_write (slot : Nat) (v : Int32) (index : Int) :
    (b.write slot v).slot? index = b.slot? index := by
  simp only [slot?, size_write]

end Bank

namespace Machine

variable {m : Machine} {index : Int} {slot : Nat}

def put (slot : Nat) (v : Int32) (m : Machine) : Machine :=
  { m with registers := m.registers.write slot v }

theorem setRegister_of_slot (h : m.registers.slot? index = some slot) (v : Int) :
    m.setRegister index v = .ok (m.put slot (Int32.ofInt v)) := by
  simp only [setRegister, Bank.set, h, put]

theorem setRegister_of_no_slot (h : m.registers.slot? index = none) (v : Int) :
    m.setRegister index v = .error (.ofBank (.noSuchRegister index m.registers.size)) := by
  simp only [setRegister, Bank.set, h]

theorem put_put (v w : Int32) : (m.put slot v).put slot w = m.put slot w := by
  simp only [put, Bank.write_write]

theorem put_comm {other : Nat} (h : slot ≠ other) (v w : Int32) :
    (m.put slot v).put other w = (m.put other w).put slot v := by
  simp only [put, Bank.write_comm _ h]

@[simp]
theorem slot?_put (slot : Nat) (v : Int32) (index : Int) :
    (m.put slot v).registers.slot? index = m.registers.slot? index :=
  Bank.slot?_write m.registers slot v index

@[simp]
theorem size_put (slot : Nat) (v : Int32) : (m.put slot v).registers.size = m.registers.size :=
  Bank.size_write m.registers slot v

/-! ## Assigning a list of pairs -/

def assignAll (pairs : List (Int × Int)) (m : Machine) : Except Failure Machine :=
  pairs.foldlM (fun m (index, v) => m.setRegister index v) m

theorem assignAll_cons (p : Int × Int) (pairs : List (Int × Int)) :
    m.assignAll (p :: pairs) = m.setRegister p.1 p.2 >>= assignAll pairs := rfl

theorem assignAll_concat (p : Int × Int) (pairs : List (Int × Int)) :
    m.assignAll (pairs ++ [p]) = m.assignAll pairs >>= fun m' => m'.setRegister p.1 p.2 := by
  unfold assignAll
  rw [List.foldlM_append]
  refine congrArg _ (funext fun m' => ?_)
  rw [List.foldlM_cons]
  exact bind_pure _

end Machine

/-- The pair, with another value if it is about the given key. -/
def amended (key v : Int) (p : Int × Int) : Int × Int := if p.1 = key then (key, v) else p

theorem lastValues_concat (pairs : List (Int × Int)) (key v : Int) :
    lastValues (pairs ++ [(key, v)]) =
      if (lastValues pairs).any fun p => p.1 == key then (lastValues pairs).map (amended key v)
      else lastValues pairs ++ [(key, v)] := by
  simp only [lastValues, List.foldl_append, List.foldl_cons, List.foldl_nil]
  rfl

namespace Machine

variable {m : Machine} {key : Int} {slot : Nat}

/-- The last value is there from the start on the one side, and comes at the end on the other. -/
theorem assignAll_amended_of_slot (kept : List (Int × Int)) (v : Int) (w : Int32)
    (hs : m.registers.slot? key = some slot) :
    (m.put slot (Int32.ofInt v)).assignAll (kept.map (amended key v)) =
      (m.put slot w).assignAll kept >>= fun m' => m'.setRegister key v := by
  induction kept generalizing m w with
  | nil =>
    have hw : (m.put slot w).registers.slot? key = some slot := by rw [slot?_put, hs]
    show _ = (m.put slot w).setRegister key v
    rw [setRegister_of_slot hw, put_put]
    rfl
  | cons p kept ih =>
    rw [List.map_cons, assignAll_cons, assignAll_cons]
    by_cases hp : p.1 = key
    · have hv : (m.put slot (Int32.ofInt v)).registers.slot? key = some slot := by
        rw [slot?_put, hs]
      have hw : (m.put slot w).registers.slot? p.1 = some slot := by rw [slot?_put, hp, hs]
      rw [amended, if_pos hp, setRegister_of_slot hv, setRegister_of_slot hw, put_put, put_put]
      exact ih _ hs
    · rw [amended, if_neg hp]
      cases ht : m.registers.slot? p.1 with
      | none =>
        have hv : (m.put slot (Int32.ofInt v)).registers.slot? p.1 = none := by rw [slot?_put, ht]
        have hw : (m.put slot w).registers.slot? p.1 = none := by rw [slot?_put, ht]
        rw [setRegister_of_no_slot hv, setRegister_of_no_slot hw, size_put, size_put]
        rfl
      | some other =>
        have hne : slot ≠ other := by
          rintro rfl
          obtain ⟨-, hkey⟩ := Bank.slot?_eq_some_iff.1 hs
          obtain ⟨-, hother⟩ := Bank.slot?_eq_some_iff.1 ht
          exact hp (hother.trans hkey.symm)
        have hv : (m.put slot (Int32.ofInt v)).registers.slot? p.1 = some other := by
          rw [slot?_put, ht]
        have hw : (m.put slot w).registers.slot? p.1 = some other := by rw [slot?_put, ht]
        have hs' : (m.put other (Int32.ofInt p.2)).registers.slot? key = some slot := by
          rw [slot?_put, hs]
        rw [setRegister_of_slot hv, setRegister_of_slot hw, put_comm hne, put_comm hne]
        exact ih _ hs'

/-- To give a key another value in a list in which it occurs is to assign that value at the end. -/
theorem assignAll_amended {kept : List (Int × Int)} (h : ∃ p ∈ kept, p.1 = key) (v : Int) :
    m.assignAll (kept.map (amended key v)) =
      m.assignAll kept >>= fun m' => m'.setRegister key v := by
  induction kept generalizing m with
  | nil => obtain ⟨p, hp, -⟩ := h; cases hp
  | cons p kept ih =>
    rw [List.map_cons, assignAll_cons, assignAll_cons]
    by_cases hp : p.1 = key
    · rw [amended, if_pos hp]
      cases hs : m.registers.slot? key with
      | none =>
        rw [hp, setRegister_of_no_slot hs, setRegister_of_no_slot hs]
        rfl
      | some slot =>
        rw [hp, setRegister_of_slot hs, setRegister_of_slot hs]
        exact assignAll_amended_of_slot kept v _ hs
    · have hkept : ∃ q ∈ kept, q.1 = key := by
        obtain ⟨q, hq, hkey⟩ := h
        rcases List.mem_cons.1 hq with rfl | hq
        · exact absurd hkey hp
        · exact ⟨q, hq, hkey⟩
      rw [amended, if_neg hp]
      cases m.setRegister p.1 p.2 with
      | error f => rfl
      | ok m' => exact ih hkept

/-- Assigning pair after pair, or to each register its last value only, gives the same machine or the
same failure. -/
theorem assignAll_lastValues (pairs : List (Int × Int)) (m : Machine) :
    m.assignAll (lastValues pairs) = m.assignAll pairs := by
  induction pairs using List.reverseRecOn with
  | nil => rfl
  | append_singleton pairs p ih =>
    rw [lastValues_concat, assignAll_concat, ← ih]
    by_cases h : ((lastValues pairs).any fun q => q.1 == p.1) = true
    · rw [if_pos h]
      simp only [List.any_eq_true, beq_iff_eq] at h
      exact assignAll_amended h p.2
    · rw [if_neg h, assignAll_concat]

end Machine
end SimpleMachine
