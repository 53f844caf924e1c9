import SimpleMachine.Proofs.Effects
import SimpleMachine.Proofs.Renaming

/-!
# SimpleMachine.Proofs.Enlargement

More registers than a program uses make no difference to it.

* `Misses x`: a computation fails for want of a register.
* `b.Extends b'`: the bank `b'` has the registers of `b` and maybe more. An instruction that does
  not miss a register of `b` has the same effect, or the same fault, on both
  (`Bank.Extends.effect`).
* `Enlarged n b p q`: the machine `q` is `p` with a bank that shares its first `n` registers with
  that of `p` and the others with `b`. A step for which `p` has the registers keeps this
  (`Enlarged.step`), and so do any number of them (`Enlarged.after`), a round (`Enlarged.turn`) and
  an execution (`Enlarged.runFor`).
* `larger_bank_runs_alike`: as long as no register is missing, a machine with a larger bank does the
  same.
-/

namespace SimpleMachine

/-- The computation fails for want of a register. -/
def Misses {α : Type} (x : Except Fault α) : Prop := ∃ index, x = .error (.invalidRegister index)

/-- Two computations in two stages are the same if their stages are, as far as the first of them
does not miss a register. -/
theorem bind_eq_of_not_misses {α β : Type} {x y : Except Fault α} {f g : α → Except Fault β}
    (h : ¬ Misses (x >>= f)) (hx : ¬ Misses x → y = x)
    (hf : ∀ a, x = .ok a → ¬ Misses (f a) → g a = f a) : (y >>= g) = (x >>= f) := by
  cases x with
  | error e =>
    have hy : y = .error e := hx fun ⟨index, he⟩ => h ⟨index, by cases he; rfl⟩
    rw [hy]
    rfl
  | ok a =>
    have hy : y = .ok a := hx nofun
    rw [hy]
    exact hf a rfl h

/-! ## Larger banks -/

structure Bank.Extends (b b' : Bank) : Prop where
  size_le : b.size ≤ b'.size
  read_eq : ∀ slot < b.size, b'.read slot = b.read slot

namespace Bank.Extends

variable {b b' : Bank}

theorem register (h : b.Extends b') (o : Operand) (hm : ¬ Misses (b.register o)) :
    b'.register o = b.register o := by
  cases ho : b.register o with
  | ok slot =>
    obtain ⟨hlt, rfl⟩ := register_eq_ok_iff.1 ho
    exact register_of_lt (Nat.lt_of_lt_of_le hlt h.size_le)
  | error e =>
    cases o with
    | word s => exact ho
    | int index =>
      rw [Bank.register] at ho
      cases hs : b.slot? index with
      | some slot => simp [hs] at ho
      | none => exact absurd ⟨index, by rw [Bank.register, hs]⟩ hm

/-- What is computed with a register that is there is computed with the same value. -/
theorem bind_register {α : Type} {f g : Nat → Except Fault α} (h : b.Extends b') (o : Operand)
    (hm : ¬ Misses (b.register o >>= f))
    (hf : ∀ slot, b'.read slot = b.read slot → ¬ Misses (f slot) → g slot = f slot) :
    (b'.register o >>= g) = (b.register o >>= f) := by
  refine bind_eq_of_not_misses hm (h.register o) fun slot ho hslot => hf slot ?_ hslot
  exact h.read_eq slot (register_eq_ok_iff.1 ho).1

theorem combine (h : b.Extends b') (f : Int32 → Int32 → Except Fault Int32)
    (operands : List Operand) (hm : ¬ Misses (b.combine f operands)) :
    b'.combine f operands = b.combine f operands := by
  unfold Bank.combine at hm ⊢
  split
  · refine h.bind_register _ hm fun dst _ hm => ?_
    refine h.bind_register _ hm fun left hleft hm => ?_
    refine h.bind_register _ hm fun right hright _ => ?_
    rw [hleft, hright]
  · rfl

theorem loadInteger (h : b.Extends b') (operands : List Operand)
    (hm : ¬ Misses (b.loadInteger operands)) :
    b'.loadInteger operands = b.loadInteger operands := by
  unfold Bank.loadInteger at hm ⊢
  split
  · exact h.bind_register _ hm fun _ _ _ => rfl
  · rfl

theorem send (h : b.Extends b') (operands : List Operand) (hm : ¬ Misses (b.send operands)) :
    b'.send operands = b.send operands := by
  unfold Bank.send at hm ⊢
  split
  · refine h.bind_register _ hm fun src hsrc _ => ?_
    rw [hsrc]
  · rfl

theorem branch (h : b.Extends b') (operands : List Operand) (hm : ¬ Misses (b.branch operands)) :
    b'.branch operands = b.branch operands := by
  unfold Bank.branch at hm ⊢
  split
  · refine h.bind_register _ hm fun src hsrc _ => ?_
    rw [hsrc]
  · rfl

/-- The size of the bank is felt in no other way than by the want of a register. -/
theorem effect (h : b.Extends b') (i : Instruction) (hm : ¬ Misses (i.effect b)) :
    i.effect b' = i.effect b := by
  have hcombined : ∀ {f}, i.opcode.combiner? = some f → i.effect b' = i.effect b := by
    intro f hf
    rw [effect_of_combiner hf] at hm
    rw [effect_of_combiner hf, effect_of_combiner hf]
    exact h.combine f i.operands hm
  obtain ⟨label, op, operands⟩ := i
  cases op
  case lin => exact h.loadInteger operands hm
  case out => exact h.send operands hm
  case bnz => exact h.branch operands hm
  case noop => rfl
  all_goals exact hcombined rfl

end Bank.Extends

/-! ## Machines with a larger bank -/

namespace Machine

/-- But for the registers the machines are the same. The right one shares all `n` registers of the
left one, and has the others from the bank `b`. -/
structure Enlarged (n : Nat) (b : Bank) (p q : Machine) : Prop where
  rest_eq : q = { p with registers := q.registers }
  size_le : n ≤ b.size
  size_left : p.registers.size = n
  size_right : q.registers.size = b.size
  shared : ∀ slot < n, q.registers.read slot = p.registers.read slot
  spare : ∀ slot, n ≤ slot → q.registers.read slot = b.read slot

/-- The next step fails for want of a register. -/
def MissesRegister (m : Machine) : Prop :=
  ∃ index pc i, m.step.1 = .error (.machine (.fault (.invalidRegister index) pc i))

/-- How two executions end of which one has the larger bank. -/
def EndEnlarged (n : Nat) (b : Bank) (x y : Except Failure Unit × Machine) : Prop :=
  y.1 = x.1 ∧ Enlarged n b x.2 y.2

inductive TurnEnlarged (n : Nat) (b : Bank) : Turn → Turn → Prop where
  | stop {r : Except Failure Unit} {p q : Machine} :
      Enlarged n b p q → TurnEnlarged n b (.stop r p) (.stop r q)
  | next {p q : Machine} : Enlarged n b p q → TurnEnlarged n b (.next p) (.next q)

namespace Enlarged

variable {n : Nat} {b : Bank} {p q : Machine} {i : Instruction}

theorem extends_registers (h : Enlarged n b p q) : p.registers.Extends q.registers where
  size_le := by rw [h.size_left, h.size_right]; exact h.size_le
  read_eq slot hlt := h.shared slot (h.size_left ▸ hlt)

theorem pc_eq (h : Enlarged n b p q) : q.pc = p.pc := by rw [h.rest_eq]

theorem steps_eq (h : Enlarged n b p q) : q.steps = p.steps := by rw [h.rest_eq]

theorem position_eq (h : Enlarged n b p q) : q.position = p.position := by rw [h.rest_eq]; rfl

/-- The counters of both machines move on by one, and the steps are counted or not. -/
theorem advance (h : Enlarged n b p q) (k : Nat) :
    Enlarged n b { p with pc := p.pc + 1, steps := p.steps + k }
      { q with pc := q.pc + 1, steps := q.steps + k } where
  rest_eq := by rw [h.rest_eq]
  size_le := h.size_le
  size_left := h.size_left
  size_right := h.size_right
  shared := h.shared
  spare := h.spare

theorem write (h : Enlarged n b p q) {slot : Nat} (hslot : slot < n) (v : Int32) :
    Enlarged n b { p with registers := p.registers.write slot v }
      { q with registers := q.registers.write slot v } where
  rest_eq := by rw [h.rest_eq]
  size_le := h.size_le
  size_left := (Bank.size_write ..).trans h.size_left
  size_right := (Bank.size_write ..).trans h.size_right
  shared k hk := by
    have hp : slot < p.registers.size := by rw [h.size_left]; exact hslot
    have hq : slot < q.registers.size := by
      rw [h.size_right]
      exact Nat.lt_of_lt_of_le hslot h.size_le
    rw [Bank.read_write hp, Bank.read_write hq, h.shared k hk]
  spare k hk := by
    have hq : slot < q.registers.size := by
      rw [h.size_right]
      exact Nat.lt_of_lt_of_le hslot h.size_le
    rw [Bank.read_write hq, if_neg (by omega), h.spare k hk]

theorem jump (h : Enlarged n b p q) (name : String) :
    Enlarged n b (p.jump name) (q.jump name) := by
  have hlabels : q.labels = p.labels := by rw [h.rest_eq]
  unfold Machine.jump
  rw [hlabels]
  cases p.labels.address? name with
  | none => exact h
  | some address => exact { h with rest_eq := by rw [h.rest_eq] }

theorem apply (h : Enlarged n b p q) {e : Effect}
    (he : i.effect p.registers = .ok e) :
    Enlarged n b (Machine.apply e p) (Machine.apply e q) := by
  cases e with
  | none => exact h
  | write slot v => exact h.write (h.size_left ▸ slot_lt_of_effect he) v
  | emit v => exact { h with rest_eq := by rw [h.rest_eq]; rfl }
  | jump name => exact h.jump name

/-- A fault that is not for want of a register is the same on the larger bank. -/
theorem effect_of_error {f : Fault} (h : Enlarged n b p q) (he : i.effect p.registers = .error f)
    (hf : ∀ index, f ≠ .invalidRegister index) : i.effect q.registers = .error f := by
  refine (h.extends_registers.effect i ?_).trans he
  rintro ⟨index, hi⟩
  rw [hi] at he
  cases he
  exact hf index rfl

theorem effect_of_ok {e : Effect} (h : Enlarged n b p q) (he : i.effect p.registers = .ok e) :
    i.effect q.registers = .ok e :=
  (h.extends_registers.effect i (by rw [he]; exact nofun)).trans he

/-- The right machine answers what the left one does, unless that one misses a register. -/
theorem step (h : Enlarged n b p q) (hm : ¬ p.MissesRegister) :
    q.step.1 = p.step.1 ∧ Enlarged n b p.step.2 q.step.2 := by
  unfold MissesRegister at hm
  have hc := stepCase_step p
  generalize p.step.1 = r, p.step.2 = p' at hc hm ⊢
  cases hc with
  | halted hp =>
    rw [(StepCase.halted (h.position_eq.trans hp)).step_eq]
    exact ⟨rfl, h⟩
  | astray hp =>
    rw [(StepCase.astray (h.position_eq.trans hp)).step_eq, h.pc_eq]
    exact ⟨rfl, h⟩
  | faulted hp he =>
    have hq := h.effect_of_error he fun index hf => hm ⟨index, _, _, by rw [hf]⟩
    rw [(StepCase.faulted (h.position_eq.trans hp) hq).step_eq]
    exact ⟨by rw [h.pc_eq], h.advance 0⟩
  | obeyed hp he =>
    rw [(StepCase.obeyed (h.position_eq.trans hp) (h.effect_of_ok he)).step_eq]
    exact ⟨rfl, (h.advance 1).apply he⟩

theorem after (h : Enlarged n b p q) (k : Nat)
    (hm : ∀ j < k, ¬ (Machine.after j p).MissesRegister) :
    Enlarged n b (Machine.after k p) (Machine.after k q) := by
  induction k generalizing p q with
  | zero => exact h
  | succ k ih =>
    have h₁ := (h.step (hm 0 (Nat.succ_pos k))).2
    exact ih h₁ fun j hj => hm (j + 1) (Nat.succ_lt_succ hj)

theorem turn (h : Enlarged n b p q) (limit : Option Int) (start : Nat)
    (hm : ∀ index pc i m', p.turn { limit } start ≠
      .stop (.error (.machine (.fault (.invalidRegister index) pc i))) m') :
    TurnEnlarged n b (p.turn { limit } start) (q.turn { limit } start) := by
  have hsteps := h.steps_eq
  have hc := turnCase_turn { limit } start p
  generalize p.turn { limit } start = t at hc hm ⊢
  cases hc with
  | finished hp =>
    rw [(TurnCase.finished (h.position_eq.trans hp)).turn_eq]
    exact .stop h
  | astray hp =>
    rw [(TurnCase.astray (h.position_eq.trans hp)).turn_eq, h.pc_eq]
    exact .stop h
  | spent hp hn hle =>
    rw [← hsteps] at hle
    rw [(TurnCase.spent (h.position_eq.trans hp) hn hle).turn_eq, h.pc_eq]
    exact .stop h
  | unshowable _ _ hl => cases hl
  | @faulted i _ _ hp ha hl he =>
    cases hl
    rw [← hsteps] at ha
    have hq := h.effect_of_error he fun index hf => hm index _ i _ (by rw [hf])
    rw [(TurnCase.faulted (h.position_eq.trans hp) ha rfl hq).turn_eq, h.pc_eq]
    exact .stop (by simpa [h.pc_eq] using h.advance 0)
  | obeyed hp ha hl he =>
    cases hl
    rw [← hsteps] at ha
    rw [(TurnCase.obeyed (h.position_eq.trans hp) ha rfl (h.effect_of_ok he)).turn_eq]
    exact .next (by simpa using (h.advance 1).apply he)

theorem runFor (h : Enlarged n b p q) (limit : Option Int) (start rounds : Nat)
    (hm : ∀ index pc i m', Machine.runFor { limit } start rounds p ≠
      some (.error (.machine (.fault (.invalidRegister index) pc i)), m')) :
    Option.Rel (EndEnlarged n b) (Machine.runFor { limit } start rounds p)
      (Machine.runFor { limit } start rounds q) := by
  induction rounds generalizing p q with
  | zero => exact .none
  | succ rounds ih =>
    unfold Machine.runFor at hm ⊢
    have ht := h.turn limit start fun index pc i m' hp => hm index pc i m' (by rw [hp])
    generalize p.turn { limit } start = t, q.turn { limit } start = u at ht hm ⊢
    cases ht with
    | stop h' => exact .some ⟨rfl, h'⟩
    | next h' => exact ih h' hm

end Enlarged

/-- A bank with more registers, of which the first ones hold what those of the machine do, makes no
difference for as long as no register is missing. After any number of steps until then, whether
these succeed, fail, or find that the machine has halted, the machines are the same but for their
banks, the first registers hold the same, and the others hold what they held at first; and each of
these steps has given the same answer on both. Executions without tracing end alike under any budget,
unless the one with the smaller bank ends for want of a register. -/
theorem larger_bank_runs_alike {p : Machine} {b : Bank} (hsize : p.registers.size ≤ b.size)
    (hread : ∀ slot < p.registers.size, b.read slot = p.registers.read slot) :
    let n := p.registers.size
    let q : Machine := { p with registers := b }
    (∀ k, (∀ j < k, ¬ (after j p).MissesRegister) →
      Enlarged n b (after k p) (after k q) ∧
        ∀ j < k, (after j q).step.1 = (after j p).step.1) ∧
    ∀ limit rounds,
      (∀ index pc i m', p.execute { limit } rounds ≠
        some (.error (.machine (.fault (.invalidRegister index) pc i)), m')) →
      Option.Rel (EndEnlarged n b) (p.execute { limit } rounds) (q.execute { limit } rounds) := by
  intro n q
  have henlarged : Enlarged n b p q := ⟨rfl, hsize, rfl, rfl, hread, fun _ _ => rfl⟩
  refine ⟨fun k hm => ⟨henlarged.after k hm, fun j hj => ?_⟩, fun limit rounds hm => ?_⟩
  · have hbefore := henlarged.after j fun j' hj' => hm j' (Nat.lt_trans hj' hj)
    exact (hbefore.step (hm j hj)).1
  · exact henlarged.runFor limit p.steps rounds hm

/-- Operands of a wrong kind and a division by zero are the same failures on a larger bank, up to
the first use of a register that only this one has. -/
theorem larger_bank_runs_alike_faults :
    let i : Instruction := ⟨"a", .add, [.int 0, .word "x", .int 9]⟩
    let j : Instruction := ⟨"b", .div, [.int 0, .int 1, .int 0]⟩
    let p : Machine :=
      { registers := (Bank.zeros 2).write 1 6
        program := #[i, j, ⟨"c", .mul, [.int 0, .int 1, .int 1]⟩, ⟨"d", .out, [.int 0]⟩,
          ⟨"e", .out, [.int 2]⟩] }
    let b : Bank := ⟨#[0, 6, 9, -3]⟩
    let q : Machine := { p with registers := b }
    (p.registers.size ≤ b.size ∧ ∀ slot < p.registers.size, b.read slot = p.registers.read slot) ∧
      (∀ k < 4, ¬ (after k p).MissesRegister) ∧ (after 4 p).MissesRegister ∧
      Enlarged 2 b (after 4 p) (after 4 q) ∧
      (after 4 q).output = #[36] ∧ (after 4 q).registers.read 3 = -3 ∧
      (after 0 q).step.1 = .error (.machine (.fault .wordAsRegister 0 i)) ∧
      (after 1 q).step.1 = .error (.machine (.fault .divisionByZero 1 j)) ∧
      ∃ m', q.execute {} 1 = some (.error (.machine (.fault .wordAsRegister 0 i)), m') := by
  intro i j p b q
  have hb : p.registers.size ≤ b.size ∧
      ∀ slot < p.registers.size, b.read slot = p.registers.read slot := by decide
  have hfaults : (after 0 p).step.1 = .error (.machine (.fault .wordAsRegister 0 i)) ∧
      (after 1 p).step.1 = .error (.machine (.fault .divisionByZero 1 j)) := by decide +kernel
  have hobeyed : (after 2 p).step.1 = .ok true ∧ (after 3 p).step.1 = .ok true := by decide +kernel
  have hfour : ∀ k < 4, ¬ (after k p).MissesRegister := by
    rintro (_ | _ | _ | _ | k) hk
    · simp [MissesRegister, hfaults.1]
    · simp [MissesRegister, hfaults.2]
    · simp [MissesRegister, hobeyed.1]
    · simp [MissesRegister, hobeyed.2]
    · omega
  obtain ⟨hafter, hrun⟩ := larger_bank_runs_alike hb.1 hb.2
  obtain ⟨henlarged, hsteps⟩ := hafter 4 hfour
  have hmiss : (after 4 p).step.1 =
      .error (.machine (.fault (.invalidRegister 2) 4 ⟨"e", .out, [.int 2]⟩)) := by
    decide +kernel
  have hx : p.execute {} 1 =
      some (.error (.machine (.fault .wordAsRegister 0 i)), { p with pc := 1 }) := by rfl
  have hends := hrun none 1 (by rw [hx]; exact nofun)
  rw [hx] at hends
  refine ⟨hb, hfour, ⟨2, 4, _, hmiss⟩, henlarged, ?_, henlarged.spare 3 (by decide),
    (hsteps 0 (by decide)).trans hfaults.1, (hsteps 1 (by decide)).trans hfaults.2, ?_⟩
  · rw [henlarged.rest_eq]
    decide +kernel
  · generalize q.execute {} 1 = y at hends ⊢
    cases hends with
    | @some _ y hy =>
      obtain ⟨r, m'⟩ := y
      obtain ⟨rfl, -⟩ := hy
      exact ⟨m', rfl⟩

end Machine
end SimpleMachine
