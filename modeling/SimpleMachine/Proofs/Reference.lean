import Mathlib.Data.Int.ModEq
import SimpleMachine.Proofs.Effects
import SimpleMachine.Proofs.Invariant

/-!
# SimpleMachine.Proofs.Reference

What each instruction ought to do, said in terms of integers, and that a step does just that.

* `IsWrapOf v x`: `v` is the integer of a register that agrees with `x` in the lowest 32 bits. There
  is one such integer, `wrap x` (`isWrapOf_iff`).
* `IsQuotient a b q`: `q` is the quotient of `a` by `b`, rounded toward zero.
* `Computes op a b v`: an arithmetic operation on `a` and `b` gives `v`. The operations on 32-bit words
  are those (`computes_iff`).
* `Assigned b b' d v`: the second bank is the first one, except that its register `d` holds `v`.
* `Reference m i m'`: the instruction `i`, obeyed by `m`, leaves `m'`.
* `step_does_reference_effect`: an instruction that does not fail makes its step succeed, and the step
  leaves the state that the reference asks for, and no other.
-/

namespace SimpleMachine

/-- The integer of a register with the same lowest 32 bits. -/
structure IsWrapOf (v x : Int) : Prop where
  fits : FitsRegister v
  modEq : v ≡ x [ZMOD 4294967296]

/-- What is left of `a` is smaller than `b`, and is zero or of the sign of `a`. -/
def IsQuotient (a b q : Int) : Prop :=
  ∃ t, a = q * b + t ∧ t.natAbs < b.natAbs ∧ (t = 0 ∨ t.sign = a.sign)

/-- The exact result of an operation that has one for all integers. -/
def Opcode.onIntegers? : Opcode → Option (Int → Int → Int)
  | .add => some fun a b => a + b
  | .sub => some fun a b => a - b
  | .mul => some fun a b => a * b
  | .div | .lin | .out | .bnz | .noop => none

inductive Computes : Opcode → Int → Int → Int → Prop where
  | exact {op : Opcode} {f : Int → Int → Int} {a b v : Int} :
      op.onIntegers? = some f → IsWrapOf v (f a b) → Computes op a b v
  | quotient {a b q : Int} : ¬ (a = minInt ∧ b = -1) → IsQuotient a b q → Computes .div a b q
  /-- The one quotient that does not fit a register. -/
  | overflow : Computes .div minInt (-1) minInt

structure Assigned (b b' : Bank) (d v : Int) : Prop where
  size_eq : b'.size = b.size
  get_eq : b'.get d = .ok v
  get_ne : ∀ j, j ≠ d → b'.get j = b.get j

inductive Reference (m : Machine) (i : Instruction) : Machine → Prop where
  | arithmetic {d l r a b v : Int} {registers : Bank} :
      i.operands = [.int d, .int l, .int r] → m.registers.get l = .ok a → m.registers.get r = .ok b →
      Computes i.opcode a b v → Assigned m.registers registers d v →
      Reference m i { m with pc := m.pc + 1, registers, steps := m.steps + 1 }
  | lin {d x v : Int} {registers : Bank} :
      i.opcode = .lin → i.operands = [.int d, .int x] → IsWrapOf v x →
      Assigned m.registers registers d v →
      Reference m i { m with pc := m.pc + 1, registers, steps := m.steps + 1 }
  | out {s : Int} {v : Int32} {rest : List Operand} :
      i.opcode = .out → i.operands = .int s :: rest → m.registers.get s = .ok v.toInt →
      Reference m i
        { m with
          pc := m.pc + 1, output := m.output.push v
          console := m.console.push (Numeral.text v.toInt), steps := m.steps + 1 }
  | goes {s a address : Int} {name : String} :
      i.opcode = .bnz → i.operands = [.int s, .word name] → m.registers.get s = .ok a → a ≠ 0 →
      m.labels.address? name = some address →
      Reference m i { m with pc := address, steps := m.steps + 1 }
  | passes {s a : Int} {target : Operand} :
      i.opcode = .bnz → i.operands = [.int s, target] → m.registers.get s = .ok a →
      (a ≠ 0 → ∀ name, target = .word name → m.labels.address? name = none) →
      Reference m i { m with pc := m.pc + 1, steps := m.steps + 1 }
  | noop : i.opcode = .noop → Reference m i { m with pc := m.pc + 1, steps := m.steps + 1 }

/-! ## Integers of 32 bits -/

theorem fitsRegister_toInt (x : Int32) : FitsRegister x.toInt := Machine.range_toInt x

theorem isWrapOf_wrap (x : Int) : IsWrapOf (wrap x) x where
  fits := fitsRegister_toInt _
  modEq := by
    rw [wrap, Int32.toInt_ofInt]
    exact Int.bmod_emod

/-- There is one integer of a register that agrees with another in the lowest 32 bits. -/
theorem isWrapOf_iff {v x : Int} : IsWrapOf v x ↔ v = wrap x := by
  constructor
  · intro h
    have hw := isWrapOf_wrap x
    have hmod : v % 4294967296 = wrap x % 4294967296 := h.modEq.trans hw.modEq.symm
    obtain ⟨⟨hlo, hhi⟩, -⟩ := h
    obtain ⟨⟨hlo', hhi'⟩, -⟩ := hw
    unfold minInt at hlo hlo'
    unfold maxInt at hhi hhi'
    omega
  · rintro rfl
    exact isWrapOf_wrap x

/-- The rounded quotient is the only one. -/
theorem isQuotient_iff {a b q : Int} (hb : b ≠ 0) : IsQuotient a b q ↔ q = a.tdiv b := by
  constructor
  · rintro ⟨t, ha, ht, hs⟩
    rcases Int.lt_trichotomy a 0 with hneg | rfl | hpos
    · have hle : t ≤ 0 := by
        rcases hs with rfl | hs
        · exact Int.le_refl 0
        · rw [Int.sign_eq_neg_one_of_neg hneg, Int.sign_eq_neg_one_iff_neg] at hs
          exact Int.le_of_lt hs
      have hq := (Int.tdiv_tmod_unique' (Int.le_of_lt hneg) hb (q := q) (r := t)).2
        ⟨by rw [ha, Int.mul_comm b q, Int.add_comm], by omega, hle⟩
      exact hq.1.symm
    · have hzero : t = 0 := by
        rcases hs with rfl | hs
        · rfl
        · rwa [Int.sign_zero, Int.sign_eq_zero_iff_zero] at hs
      subst hzero
      rw [Int.zero_tdiv]
      have hmul : q * b = 0 := by omega
      exact (Int.mul_eq_zero.1 hmul).resolve_right hb
    · have hge : 0 ≤ t := by
        rcases hs with rfl | hs
        · exact Int.le_refl 0
        · rw [Int.sign_eq_one_of_pos hpos, Int.sign_eq_one_iff_pos] at hs
          exact Int.le_of_lt hs
      have hq := (Int.tdiv_tmod_unique (Int.le_of_lt hpos) hb (q := q) (r := t)).2
        ⟨by rw [ha, Int.mul_comm b q, Int.add_comm], hge, by omega⟩
      exact hq.1.symm
  · rintro rfl
    refine ⟨a.tmod b, (Int.tdiv_mul_add_tmod a b).symm, ?_, ?_⟩
    · rw [Int.natAbs_tmod]
      exact Nat.mod_lt _ (by omega)
    · rw [Int.sign_tmod]
      by_cases hdvd : b ∣ a
      · exact .inl (Int.tmod_eq_zero_of_dvd hdvd)
      · exact .inr (by rw [if_neg hdvd])

/-- Only the least integer divided by minus one has a quotient that does not fit. -/
theorem toInt_div {x y : Int32} (h : ¬ (x.toInt = minInt ∧ y.toInt = -1)) :
    (x / y).toInt = x.toInt.tdiv y.toInt := by
  by_cases hx : x = Int32.minValue
  · refine Int32.toInt_div_of_ne_right x y ?_
    rintro rfl
    exact h ⟨by rw [hx]; rfl, rfl⟩
  · exact Int32.toInt_div_of_ne_left x y hx

/-- Wrapping before an exact operation is wrapping after it. -/
theorem combiner?_of_onIntegers? {op : Opcode} {f : Int → Int → Int} (h : op.onIntegers? = some f) :
    ∃ g, op.combiner? = some g ∧
      ∀ a b, g (Int32.ofInt a) (Int32.ofInt b) = .ok (Int32.ofInt (f a b)) := by
  cases op <;> cases h
  case add => exact ⟨_, rfl, fun a b => by rw [Int32.ofInt_add]⟩
  case sub => exact ⟨_, rfl, fun a b => by rw [Int32.ofInt_sub]⟩
  case mul => exact ⟨_, rfl, fun a b => by rw [Int32.ofInt_mul]⟩

/-- The operations on words are those on their integers, wrapped where they may be too large. -/
theorem combine_eq_ok_of_onIntegers? {op : Opcode} {f : Int → Int → Int}
    {g : Int32 → Int32 → Except Fault Int32} (hf : op.onIntegers? = some f)
    (hg : op.combiner? = some g) (x y : Int32) :
    g x y = .ok (Int32.ofInt (f x.toInt y.toInt)) := by
  obtain ⟨g', hg', hcombine⟩ := combiner?_of_onIntegers? hf
  rw [hg] at hg'
  cases hg'
  have hxy := hcombine x.toInt y.toInt
  rwa [Int32.ofInt_toInt, Int32.ofInt_toInt] at hxy

theorem combiner?_eq_some {op : Opcode} {g : Int32 → Int32 → Except Fault Int32}
    (h : op.combiner? = some g) : (∃ f, op.onIntegers? = some f) ∨ op = .div ∧ g = quotient := by
  cases op <;> cases h
  case div => exact .inr ⟨rfl, rfl⟩
  all_goals exact .inl ⟨_, rfl⟩

theorem toInt_eq_zero_iff {y : Int32} : y.toInt = 0 ↔ y = 0 := by
  rw [← Int32.toInt_zero, Int32.toInt_inj]

theorem quotient_eq_ok_iff {x y w : Int32} : quotient x y = .ok w ↔ y.toInt ≠ 0 ∧ w = x / y := by
  unfold quotient
  by_cases hy : y = 0 <;> simp [hy, toInt_eq_zero_iff, eq_comm]

theorem toInt_eq_minInt_iff {x : Int32} : x.toInt = minInt ↔ x = Int32.minValue := by
  rw [show minInt = Int32.minValue.toInt from rfl, Int32.toInt_inj]

theorem toInt_eq_neg_one_iff {y : Int32} : y.toInt = -1 ↔ y = -1 := by
  rw [show (-1 : Int) = (-1 : Int32).toInt from rfl, Int32.toInt_inj]

/-- What is computed on words is what ought to be computed on their integers. -/
theorem computes_iff {op : Opcode} {x y : Int32} {v : Int} :
    Computes op x.toInt y.toInt v ↔
      ∃ g w, op.combiner? = some g ∧ g x y = .ok w ∧ v = w.toInt := by
  constructor
  · generalize ha : x.toInt = a
    generalize hb : y.toInt = b
    intro h
    cases h with
    | exact hf hv =>
      subst ha hb
      obtain ⟨g, hg, -⟩ := combiner?_of_onIntegers? hf
      exact ⟨g, _, hg, combine_eq_ok_of_onIntegers? hf hg x y, isWrapOf_iff.1 hv⟩
    | quotient hno hq =>
      subst ha hb
      have hy : y.toInt ≠ 0 := by
        obtain ⟨t, -, ht, -⟩ := hq
        omega
      rw [isQuotient_iff hy] at hq
      exact ⟨quotient, x / y, rfl, quotient_eq_ok_iff.2 ⟨hy, rfl⟩, by rw [hq, toInt_div hno]⟩
    | overflow =>
      obtain rfl := toInt_eq_minInt_iff.1 ha
      obtain rfl := toInt_eq_neg_one_iff.1 hb
      exact ⟨quotient, Int32.minValue, rfl, rfl, rfl⟩
  · rintro ⟨g, w, hg, hw, rfl⟩
    rcases combiner?_eq_some hg with ⟨f, hf⟩ | ⟨rfl, rfl⟩
    · rw [combine_eq_ok_of_onIntegers? hf hg x y] at hw
      cases hw
      exact .exact hf (isWrapOf_wrap _)
    · obtain ⟨hy, rfl⟩ := quotient_eq_ok_iff.1 hw
      by_cases hover : x.toInt = minInt ∧ y.toInt = -1
      · obtain rfl := toInt_eq_minInt_iff.1 hover.1
        obtain rfl := toInt_eq_neg_one_iff.1 hover.2
        exact .overflow
      · exact .quotient hover ((isQuotient_iff hy).2 (toInt_div hover))

/-! ## Registers by index -/

namespace Bank

variable {b b' : Bank}

theorem get_of_lt {slot : Nat} (h : slot < b.size) : b.get slot = .ok (b.read slot).toInt := by
  rw [get, slot?_eq_some_iff.2 ⟨h, rfl⟩]

theorem get_eq_ok_iff {index v : Int} :
    b.get index = .ok v ↔ ∃ slot : Nat, slot < b.size ∧ index = slot ∧ v = (b.read slot).toInt := by
  unfold get
  cases hs : b.slot? index with
  | none =>
    simp only [reduceCtorEq, false_iff]
    rintro ⟨slot, hlt, rfl, -⟩
    rw [slot?_eq_some_iff.2 ⟨hlt, rfl⟩] at hs
    cases hs
  | some slot =>
    obtain ⟨hlt, rfl⟩ := slot?_eq_some_iff.1 hs
    simp only [Except.ok.injEq, Int.ofNat_inj]
    constructor
    · rintro rfl
      exact ⟨slot, hlt, rfl, rfl⟩
    · rintro ⟨_, -, rfl, rfl⟩
      rfl

/-- A bank has its size and the values of its registers, and nothing else. -/
theorem eq_of_read_eq (hs : b'.size = b.size) (hr : ∀ k < b.size, b'.read k = b.read k) :
    b' = b := by
  obtain ⟨values⟩ := b
  obtain ⟨values'⟩ := b'
  congr 1
  refine Array.ext hs fun k hk' hk => ?_
  have hread := hr k hk
  simpa [read, Array.getD_eq_getD_getElem?, hk, hk'] using hread

theorem assigned_iff {d : Nat} (hd : d < b.size) {w : Int32} :
    Assigned b b' d w.toInt ↔ b' = b.write d w := by
  constructor
  · rintro ⟨hsize, hget, hne⟩
    refine eq_of_read_eq (by rw [hsize, size_write]) fun k hk => ?_
    rw [size_write] at hk
    have hk' : k < b'.size := by omega
    rw [read_write hd]
    by_cases hkd : k = d
    · subst hkd
      rw [get_of_lt hk', Except.ok.injEq, Int32.toInt_inj] at hget
      rw [if_pos rfl, hget]
    · have hkeep := hne k (by omega)
      rw [get_of_lt hk', get_of_lt hk, Except.ok.injEq, Int32.toInt_inj] at hkeep
      rw [if_neg hkd, hkeep]
  · rintro rfl
    refine ⟨size_write b d w, ?_, fun j hj => ?_⟩
    · rw [get_of_lt (by rwa [size_write]), read_write hd, if_pos rfl]
    · cases hs : b.slot? j with
      | none =>
        have hs' : (b.write d w).slot? j = none := by
          rw [slot?_eq_none_iff] at hs ⊢
          rwa [size_write]
        rw [get, get, hs, hs', size_write]
      | some slot =>
        obtain ⟨hlt, rfl⟩ := slot?_eq_some_iff.1 hs
        rw [get_of_lt (by rwa [size_write]), get_of_lt hlt, read_write hd,
          if_neg (by rintro rfl; exact hj rfl)]

end Bank

/-! ## Steps -/

namespace Machine

variable {m m' : Machine} {i : Instruction}

theorem reference_of_effectCase {e : Effect} (h : EffectCase m.registers i e) :
    Reference m i (apply e { m with pc := m.pc + 1, steps := m.steps + 1 }) := by
  cases h with
  | combined hf hos hd hl hr hv =>
    exact .arithmetic hos (Bank.get_of_lt hl) (Bank.get_of_lt hr)
      (computes_iff.2 ⟨_, _, hf, hv, rfl⟩) ((Bank.assigned_iff hd).2 rfl)
  | @loaded d x hop hos hd =>
    exact .lin hop hos (isWrapOf_wrap x) ((Bank.assigned_iff hd).2 rfl)
  | sent hop hos hs => exact .out hop hos (Bank.get_of_lt hs)
  | @gone s name hop hos hs hz =>
    have hz' : (m.registers.read s).toInt ≠ 0 := mt toInt_eq_zero_iff.1 hz
    cases ha : m.labels.address? name with
    | some address =>
      simp only [apply, jump, ha]
      exact .goes hop hos (Bank.get_of_lt hs) hz' ha
    | none =>
      simp only [apply, jump, ha]
      refine .passes hop hos (Bank.get_of_lt hs) ?_
      rintro - name' hname
      cases hname
      exact ha
  | passed hop hos hs hz =>
    refine .passes hop hos (Bank.get_of_lt hs) fun hne name hname => ?_
    rw [hz name hname] at hne
    exact absurd rfl hne
  | idle hop => exact .noop hop

theorem exists_effectCase_of_reference (h : Reference m i m') :
    ∃ e, EffectCase m.registers i e ∧
      m' = apply e { m with pc := m.pc + 1, steps := m.steps + 1 } := by
  cases h with
  | arithmetic hos hl hr hv hd =>
    obtain ⟨l, hlslot, rfl, rfl⟩ := Bank.get_eq_ok_iff.1 hl
    obtain ⟨r, hrslot, rfl, rfl⟩ := Bank.get_eq_ok_iff.1 hr
    obtain ⟨g, w, hg, hw, rfl⟩ := computes_iff.1 hv
    obtain ⟨d, hdslot, rfl, -⟩ := Bank.get_eq_ok_iff.1 hd.get_eq
    rw [hd.size_eq] at hdslot
    rw [(Bank.assigned_iff hdslot).1 hd]
    exact ⟨_, .combined hg hos hdslot hlslot hrslot hw, rfl⟩
  | @lin d x v registers hop hos hv hd =>
    obtain ⟨d, hdslot, rfl, -⟩ := Bank.get_eq_ok_iff.1 hd.get_eq
    rw [hd.size_eq] at hdslot
    rw [isWrapOf_iff.1 hv] at hd
    rw [(Bank.assigned_iff hdslot).1 hd]
    exact ⟨_, .loaded hop hos hdslot, rfl⟩
  | out hop hos hs =>
    obtain ⟨s, hslot, rfl, hv⟩ := Bank.get_eq_ok_iff.1 hs
    rw [Int32.toInt_inj.1 hv]
    exact ⟨_, .sent hop hos hslot, rfl⟩
  | goes hop hos hs hz ha =>
    obtain ⟨s, hslot, rfl, rfl⟩ := Bank.get_eq_ok_iff.1 hs
    exact ⟨_, .gone hop hos hslot (mt toInt_eq_zero_iff.2 hz), by simp only [apply, jump, ha]⟩
  | @passes s a target hop hos hs hz =>
    obtain ⟨s, hslot, rfl, rfl⟩ := Bank.get_eq_ok_iff.1 hs
    rw [ne_eq, toInt_eq_zero_iff] at hz
    by_cases hgo : ∃ name, target = .word name ∧ m.registers.read s ≠ 0
    · obtain ⟨name, rfl, hne⟩ := hgo
      refine ⟨_, .gone hop hos hslot hne, ?_⟩
      simp only [apply, jump, hz hne name rfl]
    · refine ⟨_, .passed hop hos hslot fun name hname => ?_, rfl⟩
      exact Classical.not_not.1 fun hne => hgo ⟨name, hname, hne⟩
  | noop hop => exact ⟨_, .idle hop, rfl⟩

/-- The instruction at the counter is obeyed as the reference asks for, and not otherwise. -/
theorem step_eq_ok_iff_reference (hi : m.position = .at i) :
    m.step = (.ok true, m') ↔ Reference m i m' := by
  rw [step_eq_iff]
  constructor
  · intro h
    cases h with
    | obeyed hp he =>
      rw [hi] at hp
      cases hp
      exact reference_of_effectCase (effect_eq_ok_iff.1 he)
  · intro h
    obtain ⟨e, he, rfl⟩ := exists_effectCase_of_reference h
    exact .obeyed hi (effect_eq_ok_iff.2 he)

/-- A step from inside the program succeeds unless the instruction there fails. It is counted, the
program and the labels stay, and it leaves the state that the reference asks for and no other: the
reference determines the state, and a step that succeeds is one that it asks for. -/
theorem step_does_reference_effect (h₀ : 0 ≤ m.pc) (hi : m.program[m.pc.toNat]? = some i)
    (hok : ∀ e m', m.step ≠ (.error e, m')) :
    ∃ m', m.step = (.ok true, m') ∧ m'.steps = m.steps + 1 ∧ m'.program = m.program ∧
      m'.labels = m.labels ∧ Reference m i m' ∧ ∀ m'', Reference m i m'' → m'' = m' := by
  have hat : m.position = .at i := position_eq_at_iff.2 ⟨h₀, hi⟩
  cases hs : m.step with
  | mk r m' =>
    have hcase := step_eq_iff.1 hs
    cases hcase with
    | halted hp => rw [hat] at hp; cases hp
    | astray _ => exact absurd hs (hok _ _)
    | faulted _ _ => exact absurd hs (hok _ _)
    | obeyed _ _ =>
      refine ⟨_, rfl, by simp, by simp, by simp, (step_eq_ok_iff_reference hat).1 hs, ?_⟩
      intro m'' h''
      rw [(step_eq_ok_iff_reference hat).2 h''] at hs
      exact congrArg Prod.snd hs

/-- The least integer is divided by minus one, and the quotient put in its place. -/
theorem step_does_reference_effect_overflow :
    let i : Instruction := ⟨"b", .div, [.int 0, .int 0, .int 1]⟩
    let m : Machine :=
      { pc := 1, registers := ((Bank.zeros 2).write 0 Int32.minValue).write 1 (-1)
        program := #[⟨"a", .noop, []⟩, i], steps := 4 }
    (∀ e m', m.step ≠ (.error e, m')) ∧
      ∃ m', m.step = (.ok true, m') ∧ Reference m i m' ∧ m'.pc = 2 ∧ m'.steps = 5 ∧
        m'.registers.get 0 = .ok minInt ∧ m'.registers.get 1 = .ok (-1) := by
  intro i m
  have hs : m.step = (.ok true, { m with pc := 2, steps := 5 }) := by decide +kernel
  have hok : ∀ e m', m.step ≠ (.error e, m') := by
    intro e m' he
    rw [hs] at he
    cases he
  obtain ⟨m', hm', hsteps, -, -, href, -⟩ :=
    step_does_reference_effect (m := m) (i := i) (by decide) rfl hok
  obtain rfl : { m with pc := 2, steps := 5 } = m' := by
    rw [hs] at hm'
    exact congrArg Prod.snd hm'
  exact ⟨hok, _, hs, href, rfl, hsteps, by decide, by decide⟩

end Machine
end SimpleMachine
