import SimpleMachine.Machine.Effect

/-!
# SimpleMachine.Proofs.Effects

What each kind of instruction asks for, whatever its operands.

* `combine_eq_ok_iff`, `loadInteger_eq_ok_iff`, `send_eq_ok_iff`, `branch_eq_ok_iff`: when the four
  ways to work on the bank succeed, and with which effect.
* `EffectCase b i e`: the six ways in which an instruction comes to an effect; `effect` is exactly
  this relation (`effect_eq_ok_iff`), so that no later proof opens it.
* `Instruction.target?`: the label that an instruction branches to. It is the only one to which the
  instruction ever goes (`target?_of_effect`).
-/

namespace SimpleMachine

/-- The label of a branch that has its two operands, the second of which is a word. -/
def Instruction.target? (i : Instruction) : Option String :=
  match i.opcode, i.operands with
  | .bnz, [_, .word name] => some name
  | _, _ => none

/-- How an operation combines two registers, if that is what it does. -/
def Opcode.combiner? : Opcode → Option (Int32 → Int32 → Except Fault Int32)
  | .add => some fun x y => .ok (x + y)
  | .sub => some fun x y => .ok (x - y)
  | .mul => some fun x y => .ok (x * y)
  | .div => some quotient
  | .lin | .out | .bnz | .noop => none

inductive EffectCase (b : Bank) (i : Instruction) : Effect → Prop where
  | combined {f : Int32 → Int32 → Except Fault Int32} {d l r : Nat} {v : Int32} :
      i.opcode.combiner? = some f → i.operands = [.int d, .int l, .int r] →
      d < b.size → l < b.size → r < b.size → f (b.read l) (b.read r) = .ok v →
      EffectCase b i (.write d v)
  | loaded {d : Nat} {x : Int} :
      i.opcode = .lin → i.operands = [.int d, .int x] → d < b.size →
      EffectCase b i (.write d (Int32.ofInt x))
  | sent {s : Nat} {rest : List Operand} :
      i.opcode = .out → i.operands = .int s :: rest → s < b.size → EffectCase b i (.emit (b.read s))
  | gone {s : Nat} {name : String} :
      i.opcode = .bnz → i.operands = [.int s, .word name] → s < b.size → b.read s ≠ 0 →
      EffectCase b i (.jump name)
  | passed {s : Nat} {target : Operand} :
      i.opcode = .bnz → i.operands = [.int s, target] → s < b.size →
      (∀ name, target = .word name → b.read s = 0) → EffectCase b i .none
  | idle : i.opcode = .noop → EffectCase b i .none

theorem bind_eq_ok {ε α β : Type} {x : Except ε α} {f : α → Except ε β} {b : β}
    (h : (x >>= f) = .ok b) : ∃ a, x = .ok a ∧ f a = .ok b := by
  cases x with
  | error e => cases h
  | ok a => exact ⟨a, rfl, h⟩

namespace Bank

variable {b : Bank} {operands : List Operand} {e : Effect}

theorem register_of_lt {slot : Nat} (h : slot < b.size) : b.register (.int slot) = .ok slot :=
  register_eq_ok_iff.2 ⟨h, rfl⟩

/-- What a computation on a register comes to, it comes to for one that is there. -/
theorem bind_register_eq_ok {α : Type} {o : Operand} {f : Nat → Except Fault α} {a : α}
    (h : (b.register o >>= f) = .ok a) :
    ∃ slot : Nat, o = .int slot ∧ slot < b.size ∧ f slot = .ok a := by
  obtain ⟨slot, hslot, hf⟩ := bind_eq_ok h
  obtain ⟨hlt, ho⟩ := register_eq_ok_iff.1 hslot
  exact ⟨slot, ho, hlt, hf⟩

theorem combine_eq_ok_iff {f : Int32 → Int32 → Except Fault Int32} :
    b.combine f operands = .ok e ↔
      ∃ (d l r : Nat) (v : Int32), operands = [.int d, .int l, .int r] ∧
        d < b.size ∧ l < b.size ∧ r < b.size ∧ f (b.read l) (b.read r) = .ok v ∧
        e = .write d v := by
  constructor
  · intro h
    unfold combine at h
    split at h
    · obtain ⟨dst, rfl, hd, h⟩ := bind_register_eq_ok h
      obtain ⟨left, rfl, hl, h⟩ := bind_register_eq_ok h
      obtain ⟨right, rfl, hr, h⟩ := bind_register_eq_ok h
      obtain ⟨v, hv, h⟩ := bind_eq_ok h
      cases h
      exact ⟨dst, left, right, v, rfl, hd, hl, hr, hv, rfl⟩
    · cases h
  · rintro ⟨d, l, r, v, rfl, hd, hl, hr, hv, rfl⟩
    simp only [combine, register_of_lt hd, register_of_lt hl, register_of_lt hr]
    show (f (b.read l) (b.read r) >>= fun v => .ok (Effect.write d v)) = _
    rw [hv]
    rfl

theorem loadInteger_eq_ok_iff :
    b.loadInteger operands = .ok e ↔
      ∃ (d : Nat) (x : Int), operands = [.int d, .int x] ∧ d < b.size ∧
        e = .write d (Int32.ofInt x) := by
  constructor
  · intro h
    unfold loadInteger at h
    split at h
    · obtain ⟨dst, rfl, hd, h⟩ := bind_register_eq_ok h
      split at h
      · cases h
        exact ⟨dst, _, rfl, hd, rfl⟩
      · cases h
    · cases h
  · rintro ⟨d, x, rfl, hd, rfl⟩
    simp only [loadInteger, register_of_lt hd]
    rfl

theorem send_eq_ok_iff :
    b.send operands = .ok e ↔
      ∃ (s : Nat) (rest : List Operand), operands = .int s :: rest ∧ s < b.size ∧
        e = .emit (b.read s) := by
  constructor
  · intro h
    unfold send at h
    split at h
    · obtain ⟨src, rfl, hs, h⟩ := bind_register_eq_ok h
      cases h
      exact ⟨src, _, rfl, hs, rfl⟩
    · cases h
  · rintro ⟨s, rest, rfl, hs, rfl⟩
    simp only [send, register_of_lt hs]
    rfl

theorem branch_eq_ok_iff :
    b.branch operands = .ok e ↔
      ∃ (s : Nat) (target : Operand), operands = [.int s, target] ∧ s < b.size ∧
        ((∃ name, target = .word name ∧ b.read s ≠ 0 ∧ e = .jump name) ∨
          (∀ name, target = .word name → b.read s = 0) ∧ e = .none) := by
  constructor
  · intro h
    unfold branch at h
    split at h
    · rename_i o target
      obtain ⟨src, rfl, hs, h⟩ := bind_register_eq_ok h
      refine ⟨src, target, rfl, hs, ?_⟩
      cases target with
      | int v =>
        cases h
        exact .inr ⟨nofun, rfl⟩
      | word name =>
        change Except.ok (if b.read src ≠ 0 then Effect.jump name else .none) = .ok e at h
        by_cases hz : b.read src ≠ 0
        · rw [if_pos hz] at h
          cases h
          exact .inl ⟨name, rfl, hz, rfl⟩
        · rw [if_neg hz] at h
          cases h
          exact .inr ⟨fun _ _ => Classical.not_not.1 hz, rfl⟩
    · cases h
  · rintro ⟨s, target, rfl, hs, ⟨name, rfl, hz, rfl⟩ | ⟨hz, rfl⟩⟩
    · simp only [branch, register_of_lt hs]
      show Except.ok (if b.read s ≠ 0 then Effect.jump name else .none) = _
      rw [if_pos hz]
    · cases target with
      | int v =>
        simp only [branch, register_of_lt hs]
        rfl
      | word name =>
        simp only [branch, register_of_lt hs]
        show Except.ok (if b.read s ≠ 0 then Effect.jump name else .none) = _
        rw [if_neg (Classical.not_not.2 (hz name rfl))]

end Bank

theorem effect_of_combiner {b : Bank} {i : Instruction}
    {f : Int32 → Int32 → Except Fault Int32} (h : i.opcode.combiner? = some f) :
    i.effect b = b.combine f i.operands := by
  obtain ⟨label, op, operands⟩ := i
  cases op <;> cases h <;> rfl

/-- An instruction comes to its effect in one of these ways, and in no other. -/
theorem effect_eq_ok_iff {b : Bank} {i : Instruction} {e : Effect} :
    i.effect b = .ok e ↔ EffectCase b i e := by
  constructor
  · intro h
    have hcombined : ∀ {f}, i.opcode.combiner? = some f → EffectCase b i e := by
      intro f hf
      rw [effect_of_combiner hf] at h
      obtain ⟨d, l, r, v, hos, hd, hl, hr, hv, rfl⟩ := Bank.combine_eq_ok_iff.1 h
      exact .combined hf hos hd hl hr hv
    obtain ⟨label, op, operands⟩ := i
    cases op
    case lin =>
      obtain ⟨d, x, hos, hd, rfl⟩ := Bank.loadInteger_eq_ok_iff.1 h
      exact .loaded rfl hos hd
    case out =>
      obtain ⟨s, rest, hos, hs, rfl⟩ := Bank.send_eq_ok_iff.1 h
      exact .sent rfl hos hs
    case bnz =>
      obtain ⟨s, target, hos, hs, ⟨name, rfl, hz, rfl⟩ | ⟨hz, rfl⟩⟩ := Bank.branch_eq_ok_iff.1 h
      · exact .gone rfl hos hs hz
      · exact .passed rfl hos hs hz
    case noop =>
      cases h
      exact .idle rfl
    all_goals exact hcombined rfl
  · intro h
    cases h with
    | combined hf hos hd hl hr hv =>
      rw [effect_of_combiner hf]
      exact Bank.combine_eq_ok_iff.2 ⟨_, _, _, _, hos, hd, hl, hr, hv, rfl⟩
    | loaded hop hos hd =>
      rw [Instruction.effect, hop]
      exact Bank.loadInteger_eq_ok_iff.2 ⟨_, _, hos, hd, rfl⟩
    | sent hop hos hs =>
      rw [Instruction.effect, hop]
      exact Bank.send_eq_ok_iff.2 ⟨_, _, hos, hs, rfl⟩
    | gone hop hos hs hz =>
      rw [Instruction.effect, hop]
      exact Bank.branch_eq_ok_iff.2 ⟨_, _, hos, hs, .inl ⟨_, rfl, hz, rfl⟩⟩
    | passed hop hos hs hz =>
      rw [Instruction.effect, hop]
      exact Bank.branch_eq_ok_iff.2 ⟨_, _, hos, hs, .inr ⟨hz, rfl⟩⟩
    | idle hop => rw [Instruction.effect, hop]

/-- What an instruction writes it writes to a register that is there. -/
theorem slot_lt_of_effect {b : Bank} {i : Instruction} {slot : Nat} {v : Int32}
    (h : i.effect b = .ok (.write slot v)) : slot < b.size := by
  cases effect_eq_ok_iff.1 h with
  | combined _ _ hd _ _ _ => exact hd
  | loaded _ _ hd => exact hd

/-- An instruction goes to no other label than its target. -/
theorem target?_of_effect {i : Instruction} {b : Bank} {name : String}
    (h : i.effect b = .ok (.jump name)) : i.target? = some name := by
  cases effect_eq_ok_iff.1 h with
  | gone hop hos _ _ => rw [Instruction.target?, hop, hos]

end SimpleMachine
