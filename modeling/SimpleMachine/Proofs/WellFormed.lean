import Mathlib.Data.List.Forall2
import SimpleMachine.Proofs.Installation
import SimpleMachine.Proofs.Refinement

/-!
# SimpleMachine.Proofs.WellFormed

The instructions of an assembled program, and when they fail.

* `HasShape op operands`: the operands are of the number and kinds that the operation works with,
  and its integers fit a register.
* `Instruction.WellFormed`: the shape is right and the label is a word. Every instruction of a text
  that can be read is (`wellFormed_of_ofLines`).
* `Instruction.registers`: the registers that an instruction names, in the order in which it looks
  them up.
* `Faults b i f message`: with the bank `b`, the instruction names a register that is not there, or
  divides by zero. For a well-formed instruction this is all that can go wrong
  (`effect_eq_error_iff`).
* `assembled_step_fails_iff`: so it is for the steps of a run of an assembled program.
-/

namespace SimpleMachine

open Source

/-- There is no space and no tab in the text. -/
def Unbroken (text : String) : Prop := ∀ c ∈ text.toList, isGap c = false

inductive HasShape : Opcode → List Operand → Prop where
  | arithmetic {op : Opcode} {dst left right : Int} :
      op = .add ∨ op = .sub ∨ op = .mul ∨ op = .div →
      FitsRegister dst → FitsRegister left → FitsRegister right →
      HasShape op [.int dst, .int left, .int right]
  | lin {dst v : Int} : FitsRegister dst → FitsRegister v → HasShape .lin [.int dst, .int v]
  | out {src : Int} : FitsRegister src → HasShape .out [.int src]
  | bnz {src : Int} {target : String} :
      FitsRegister src → Unbroken target → HasShape .bnz [.int src, .word target]
  | noop {text : String} : HasShape .noop [.word text]

structure Instruction.WellFormed (i : Instruction) : Prop where
  label_ne_empty : i.label ≠ ""
  label_unbroken : Unbroken i.label
  shape : HasShape i.opcode i.operands

/-! ## Reading gives well-formed instructions -/

/-- What an operand of the kind is when it has been read from a text. -/
def OperandKind.Admits : OperandKind → Operand → Prop
  | .integer, .int v => FitsRegister v
  | .label, .word text => Unbroken text
  | _, _ => False

theorem admits_integer_iff {o : Operand} :
    OperandKind.integer.Admits o ↔ ∃ v, o = .int v ∧ FitsRegister v := by
  cases o <;> simp [OperandKind.Admits]

theorem admits_label_iff {o : Operand} :
    OperandKind.label.Admits o ↔ ∃ text, o = .word text ∧ Unbroken text := by
  cases o <;> simp [OperandKind.Admits]

theorem unbroken_nextWord (line : List Char) : Unbroken (String.ofList (nextWord line).1) := by
  intro c hc
  rw [String.toList_ofList] at hc
  exact isGap_eq_false_of_mem_nextWord hc

theorem fitsRegister_of_integerOperand {mode : Mode} {word : List Char} {v : Int}
    (h : integerOperand mode word = .ok v) : FitsRegister v := by
  unfold integerOperand at h
  cases hr : Numeral.read word with
  | error e => simp [hr] at h
  | ok value =>
    cases value with
    | some u =>
      simp only [hr, Except.ok.injEq] at h
      subst h
      exact (Numeral.read_eq_some_iff.1 hr).2.2.2
    | none =>
      cases mode with
      | strict => simp [hr] at h
      | lenient =>
        simp only [hr, Except.ok.injEq] at h
        subst h
        exact ⟨by decide, by decide⟩

theorem admits_of_readOperands {mode : Mode} {kinds : List OperandKind} {line : List Char}
    {operands : List Operand} (h : (readOperands mode kinds line).1 = .ok operands) :
    List.Forall₂ OperandKind.Admits kinds operands := by
  induction kinds generalizing line operands with
  | nil => cases h; exact .nil
  | cons kind kinds ih =>
    obtain ⟨operand, rest, ho, hrest, rfl⟩ := readOperands_cons_eq_ok_iff.1 h
    refine .cons ?_ (ih hrest)
    cases kind with
    | integer =>
      obtain ⟨v, hv, rfl⟩ := readOperand_integer_eq_ok_iff.1 ho
      exact fitsRegister_of_integerOperand hv
    | label =>
      cases ho
      exact unbroken_nextWord line

theorem hasShape_of_admits {op : Opcode} {operands : List Operand} (hop : op ≠ .noop)
    (h : List.Forall₂ OperandKind.Admits op.operandKinds operands) : HasShape op operands := by
  cases op <;> simp only [Opcode.operandKinds, List.forall₂_cons_left_iff,
    List.forall₂_nil_left_iff, admits_integer_iff, admits_label_iff] at h
  case noop => exact absurd rfl hop
  case lin =>
    obtain ⟨_, _, ⟨d, rfl, hd⟩, ⟨_, _, ⟨v, rfl, hv⟩, rfl, rfl⟩, rfl⟩ := h
    exact .lin hd hv
  case out =>
    obtain ⟨_, _, ⟨s, rfl, hs⟩, rfl, rfl⟩ := h
    exact .out hs
  case bnz =>
    obtain ⟨_, _, ⟨s, rfl, hs⟩, ⟨_, _, ⟨t, rfl, ht⟩, rfl, rfl⟩, rfl⟩ := h
    exact .bnz hs ht
  all_goals
    obtain ⟨_, _, ⟨d, rfl, hd⟩, ⟨_, _, ⟨l, rfl, hl⟩, ⟨_, _, ⟨r, rfl, hr⟩, rfl, rfl⟩, rfl⟩, rfl⟩ := h
    exact .arithmetic (by decide) hd hl hr

theorem ofWord?_ne_noop {word : List Char} {op : Opcode} (h : Opcode.ofWord? word = some op) :
    op ≠ .noop := by
  simpa using (Option.filter_eq_some_iff.1 h).2

theorem wellFormed_of_lineInstruction? {mode : Mode} {line : String} {i : Instruction}
    (h : lineInstruction? mode line = some i) : i.WellFormed := by
  obtain ⟨hb, hr⟩ := lineInstruction?_eq_some_iff.1 h
  have hl : i.label = String.ofList (nextWord line.toList).1 := label_of_readStatement hr
  refine ⟨by simpa [hl] using hb, by rw [hl]; exact unbroken_nextWord _, ?_⟩
  rcases readStatement_eq_ok_iff.1 hr with ⟨-, rfl⟩ | ⟨op, operands, hop, hos, rfl⟩
  · exact .noop
  · exact hasShape_of_admits (ofWord?_ne_noop hop) (admits_of_readOperands hos)

theorem wellFormed_of_ofLines {mode : Mode} {lines : List String} {l : Listing}
    (h : Listing.ofLines mode lines = (.ok (), l)) {i : Instruction} (hi : i ∈ l.program) :
    i.WellFormed := by
  obtain ⟨-, rfl⟩ := ofLines_eq_ok_iff.1 h
  rw [List.mem_toArray, List.mem_filterMap] at hi
  obtain ⟨line, -, hl⟩ := hi
  exact wellFormed_of_lineInstruction? hl

/-! ## What can go wrong with a well-formed instruction -/

namespace Opcode

/-- How many operands, from the first on, are registers. -/
def registerCount : Opcode → Nat
  | .add | .sub | .mul | .div => 3
  | .lin | .out | .bnz => 1
  | .noop => 0

end Opcode

/-- The registers that an instruction names, from left to right. -/
def Instruction.registers (i : Instruction) : List Int :=
  (i.operands.take i.opcode.registerCount).filterMap fun
    | .int r => some r
    | .word _ => none

/-- No register of the bank has the index. -/
def Bank.Lacks (b : Bank) (r : Int) : Prop := r < 0 ∨ b.size ≤ r

instance (b : Bank) (r : Int) : Decidable (b.Lacks r) := inferInstanceAs (Decidable (_ ∨ _))

inductive Faults (b : Bank) (i : Instruction) : Fault → String → Prop where
  | register {r : Int} :
      i.registers.find? (fun r => b.Lacks r) = some r →
      Faults b i (.invalidRegister r) ("invalid register " ++ Numeral.text r)
  | divisor {dst left right : Int} :
      i.opcode = .div → i.operands = [.int dst, .int left, .int right] →
      (∀ r ∈ i.registers, ¬ b.Lacks r) → b.get right = .ok 0 →
      Faults b i .divisionByZero "division by zero"

namespace Bank

theorem register_int (b : Bank) (r : Int) :
    b.register (.int r) = if b.Lacks r then .error (.invalidRegister r) else .ok r.toNat := by
  by_cases h : b.Lacks r
  · simp [register, slot?_eq_none_iff.2 h, h]
  · have hs : b.slot? r = some r.toNat := by
      unfold Lacks at h
      exact slot?_eq_some_iff.2 ⟨by omega, by omega⟩
    simp [register, hs, h]

/-- Registers are looked up from left to right, and then the values in them are combined. -/
theorem combine_ints (b : Bank) (f : Int32 → Int32 → Except Fault Int32) (dst left right : Int) :
    b.combine f [.int dst, .int left, .int right] =
      match [dst, left, right].find? (fun r => b.Lacks r) with
      | some r => .error (.invalidRegister r)
      | none => (f (b.read left.toNat) (b.read right.toNat)).map (Effect.write dst.toNat) := by
  by_cases hd : b.Lacks dst
  · simp [combine, register_int, hd]
    rfl
  · by_cases hl : b.Lacks left
    · simp [combine, register_int, hd, hl]
      rfl
    · by_cases hr : b.Lacks right
      · simp [combine, register_int, hd, hl, hr]
        rfl
      · simp [combine, register_int, hd, hl, hr]
        rfl

theorem loadInteger_ints (b : Bank) (dst v : Int) :
    b.loadInteger [.int dst, .int v] =
      match [dst].find? (fun r => b.Lacks r) with
      | some r => .error (.invalidRegister r)
      | none => .ok (.write dst.toNat (Int32.ofInt v)) := by
  by_cases h : b.Lacks dst <;> simp [loadInteger, register_int, h]

theorem send_int (b : Bank) (src : Int) :
    b.send [.int src] =
      match [src].find? (fun r => b.Lacks r) with
      | some r => .error (.invalidRegister r)
      | none => .ok (.emit (b.read src.toNat)) := by
  by_cases h : b.Lacks src <;> simp [send, register_int, h]

theorem branch_word (b : Bank) (src : Int) (target : String) :
    b.branch [.int src, .word target] =
      match [src].find? (fun r => b.Lacks r) with
      | some r => .error (.invalidRegister r)
      | none => .ok (if b.read src.toNat ≠ 0 then .jump target else .none) := by
  by_cases h : b.Lacks src <;> simp [branch, register_int, h]

end Bank

/-- A register that is there holds zero exactly if zero is what a division by it divides by. -/
theorem Bank.get_eq_zero_iff {b : Bank} {r : Int} (h : ¬ b.Lacks r) :
    b.get r = .ok 0 ↔ b.read r.toNat = 0 := by
  have hs : b.slot? r = some r.toNat := by
    unfold Bank.Lacks at h
    exact Bank.slot?_eq_some_iff.2 ⟨by omega, by omega⟩
  rw [Bank.get, hs, ← Int32.toInt_inj]
  simp

theorem effect_of_missing {b : Bank} {i : Instruction} {r : Int}
    (h : HasShape i.opcode i.operands) (hr : i.registers.find? (fun r => b.Lacks r) = some r) :
    i.effect b = .error (.invalidRegister r) := by
  obtain ⟨label, op, operands⟩ := i
  cases h with
  | @arithmetic _ dst left right hop =>
    rcases hop with rfl | rfl | rfl | rfl
    all_goals
      have hr' : [dst, left, right].find? (fun r => b.Lacks r) = some r := hr
      simp only [Instruction.effect, Bank.combine_ints, hr']
  | @lin dst v =>
    have hr' : [dst].find? (fun r => b.Lacks r) = some r := hr
    simp only [Instruction.effect, Bank.loadInteger_ints, hr']
  | @out src =>
    have hr' : [src].find? (fun r => b.Lacks r) = some r := hr
    simp only [Instruction.effect, Bank.send_int, hr']
  | @bnz src target =>
    have hr' : [src].find? (fun r => b.Lacks r) = some r := hr
    simp only [Instruction.effect, Bank.branch_word, hr']
  | noop => cases hr

/-- A division whose registers are there fails exactly if its divisor is zero. -/
theorem div_eq_error_iff {b : Bank} {dst left right : Int} {f : Fault}
    (h : [dst, left, right].find? (fun r => b.Lacks r) = none) :
    b.combine quotient [.int dst, .int left, .int right] = .error f ↔
      f = .divisionByZero ∧ b.get right = .ok 0 := by
  have hl : ¬ b.Lacks right := by simpa using List.find?_eq_none.1 h right (by simp)
  rw [Bank.combine_ints, h, Bank.get_eq_zero_iff hl]
  by_cases hz : b.read right.toNat = 0
  · simp [quotient, Except.map, hz, eq_comm]
  · simp [quotient, Except.map, hz]

/-- When all registers are there, only a division by zero fails. -/
theorem effect_of_present {b : Bank} {i : Instruction} {f : Fault}
    (h : HasShape i.opcode i.operands) (hr : i.registers.find? (fun r => b.Lacks r) = none) :
    i.effect b = .error f ↔
      f = .divisionByZero ∧ i.opcode = .div ∧
        ∃ dst left right : Int, i.operands = [.int dst, .int left, .int right] ∧
          b.get right = .ok 0 := by
  obtain ⟨label, op, operands⟩ := i
  cases h with
  | @arithmetic _ dst left right hop =>
    rcases hop with rfl | rfl | rfl | rfl
    -- only the last of the four can fail on registers that are there
    case inr.inr.inr => simp [Instruction.effect, div_eq_error_iff hr]
    all_goals
      have hr' : [dst, left, right].find? (fun r => b.Lacks r) = none := hr
      simp [Instruction.effect, Bank.combine_ints, hr', Except.map]
  | @lin dst v =>
    have hr' : [dst].find? (fun r => b.Lacks r) = none := hr
    simp [Instruction.effect, Bank.loadInteger_ints, hr']
  | @out src =>
    have hr' : [src].find? (fun r => b.Lacks r) = none := hr
    simp [Instruction.effect, Bank.send_int, hr']
  | @bnz src target =>
    have hr' : [src].find? (fun r => b.Lacks r) = none := hr
    simp [Instruction.effect, Bank.branch_word, hr']
  | noop => simp [Instruction.effect]

/-- A well-formed instruction fails for no other reason than these. -/
theorem effect_eq_error_iff {b : Bank} {i : Instruction} {f : Fault} (h : i.WellFormed) :
    i.effect b = .error f ↔ ∃ message, Faults b i f message := by
  cases hr : i.registers.find? (fun r => b.Lacks r) with
  | some r =>
    -- a missing register also rules out the division, whose registers are all there
    have hlacks : r ∈ i.registers ∧ b.Lacks r :=
      ⟨List.mem_of_find?_eq_some hr, by simpa using List.find?_some hr⟩
    rw [effect_of_missing h.shape hr]
    constructor
    · rintro ⟨⟩; exact ⟨_, .register hr⟩
    · rintro ⟨message, hf⟩
      cases hf with
      | register hr' => rw [hr] at hr'; cases hr'; rfl
      | divisor _ _ hall _ => exact absurd hlacks.2 (hall r hlacks.1)
  | none =>
    have hall : ∀ r ∈ i.registers, ¬ b.Lacks r := by simpa using hr
    rw [effect_of_present h.shape hr]
    constructor
    · rintro ⟨rfl, hop, dst, left, right, hos, hz⟩
      exact ⟨_, .divisor hop hos hall hz⟩
    · rintro ⟨message, hf⟩
      cases hf with
      | register hr' => rw [hr] at hr'; cases hr'
      | divisor hop hos _ hz => exact ⟨rfl, hop, _, _, _, hos, hz⟩

theorem fitsRegister_of_mem_registers {i : Instruction} (h : HasShape i.opcode i.operands) {r : Int}
    (hr : r ∈ i.registers) : FitsRegister r := by
  obtain ⟨label, op, operands⟩ := i
  cases h with
  | @arithmetic _ dst left right hop hd hl hright =>
    have hr' : r ∈ [dst, left, right] := by
      rcases hop with rfl | rfl | rfl | rfl <;> exact hr
    simp only [List.mem_cons, List.not_mem_nil, or_false] at hr'
    rcases hr' with rfl | rfl | rfl <;> assumption
  | lin hd _ => obtain rfl := List.mem_singleton.1 hr; exact hd
  | out hs => obtain rfl := List.mem_singleton.1 hr; exact hs
  | bnz hs _ => obtain rfl := List.mem_singleton.1 hr; exact hs
  | noop => cases hr

/-- The index of a register that is missing is short, since it fits a register. -/
theorem Faults.message_eq {b : Bank} {i : Instruction} {f : Fault} {message : String}
    (h : Faults b i f message) (hi : i.WellFormed) : f.message = message := by
  cases h with
  | register hr =>
    have hfits := fitsRegister_of_mem_registers hi.shape (List.mem_of_find?_eq_some hr)
    rw [Fault.message, Numeral.shown_of_short (Numeral.short_of_mem_range hfits)]
  | divisor _ _ _ _ => rfl

/-! ## Steps of an assembled program -/

namespace Machine

/-- The instructions of a text are well formed. In every state that a run of them reaches, a step
from inside the program fails if and only if the instruction there names a register that the bank
lacks, or divides by a register that holds zero. -/
theorem assembled_step_fails_iff {mode : Mode} {lines : List String} {l : Listing}
    (h : Listing.ofLines mode lines = (.ok (), l)) :
    (∀ i ∈ l.program, i.WellFormed) ∧
    ∀ (m m' : Machine) (k : Nat), m.program = l.program → Steps k m m' →
      0 ≤ m'.pc → m'.pc < m'.program.size →
      ∃ i, l.program[m'.pc.toNat]? = some i ∧
        ∀ e m'', m'.step = (.error e, m'') ↔
          ∃ f message, Faults m'.registers i f message ∧ e = .machine (.fault f m'.pc i) ∧
            (MachineError.fault f m'.pc i).cause = .ok message ∧
            m'' = { m' with pc := m'.pc + 1 } := by
  refine ⟨fun i hi => wellFormed_of_ofLines h hi, fun m m' k hp hk h₀ hlt => ?_⟩
  have hp' : m'.program = l.program := hk.program_eq.trans hp
  have hat : m'.position = .at m'.program[m'.pc.toNat] := position_of_lt h₀ (by omega)
  have hi := (position_eq_at_iff.1 hat).2
  generalize m'.program[m'.pc.toNat] = i at hat hi
  rw [hp'] at hi
  have hw : i.WellFormed := wellFormed_of_ofLines h (Array.mem_of_getElem? hi)
  refine ⟨i, hi, fun e m'' => ?_⟩
  rw [step_eq_iff]
  constructor
  · intro hs
    cases hs with
    | astray hp => rw [hat] at hp; cases hp
    | faulted hp he =>
      rw [hat] at hp; cases hp
      obtain ⟨message, hf⟩ := (effect_eq_error_iff hw).1 he
      exact ⟨_, message, hf, rfl, congrArg Except.ok (hf.message_eq hw), rfl⟩
  · rintro ⟨f, message, hf, rfl, -, rfl⟩
    exact .faulted hat ((effect_eq_error_iff hw).2 ⟨message, hf⟩)

/-- After one step the divisor is still zero; in a bank of one register it is missing. -/
theorem assembled_step_fails_iff_div :
    let lines : List String := ["a lin 0 7", "b div 0 0 1"]
    let i : Instruction := ⟨"b", .div, [.int 0, .int 0, .int 1]⟩
    ∃ l, Listing.ofLines .strict lines = (.ok (), l) ∧ i.WellFormed ∧
      (∃ m m', Steps 1 { registers := .zeros 2, program := l.program } m ∧
        m.step = (.error (.machine (.fault .divisionByZero 1 i)), m')) ∧
      ∃ m m', Steps 1 { registers := .zeros 1, program := l.program } m ∧
        m.step = (.error (.machine (.fault (.invalidRegister 1) 1 i)), m') := by
  intro lines i
  let program : Array Instruction := #[⟨"a", .lin, [.int 0, .int 7]⟩, i]
  obtain ⟨l, hl, hp⟩ : ∃ l, Listing.ofLines .strict lines = (.ok (), l) ∧ l.program = program :=
    ⟨_, by rfl, by rfl⟩
  obtain ⟨hwf, hstep⟩ := assembled_step_fails_iff hl
  rw [hp] at hwf hstep
  refine ⟨l, hl, hwf i (by simp [program]), ?_, ?_⟩ <;> rw [hp]
  · have hs : Steps 1 { registers := .zeros 2, program }
        { pc := 1, registers := (Bank.zeros 2).write 0 7, program, steps := 1 } := .cons rfl .refl
    obtain ⟨i', hi, hiff⟩ := hstep _ _ 1 rfl hs (by decide) (by decide)
    cases hi
    have hf : Faults ((Bank.zeros 2).write 0 7) i .divisionByZero "division by zero" :=
      .divisor rfl rfl (by decide) rfl
    exact ⟨_, _, hs, (hiff _ _).2 ⟨_, _, hf, rfl, rfl, rfl⟩⟩
  · have hs : Steps 1 { registers := .zeros 1, program }
        { pc := 1, registers := (Bank.zeros 1).write 0 7, program, steps := 1 } := .cons rfl .refl
    obtain ⟨i', hi, hiff⟩ := hstep _ _ 1 rfl hs (by decide) (by decide)
    cases hi
    have hf : Faults ((Bank.zeros 1).write 0 7) i (.invalidRegister 1)
        ("invalid register " ++ Numeral.text 1) := .register rfl
    exact ⟨_, _, hs, (hiff _ _).2 ⟨_, _, hf, rfl, rfl, rfl⟩⟩

end Machine
end SimpleMachine
