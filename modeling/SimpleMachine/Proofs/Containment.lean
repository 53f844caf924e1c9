import SimpleMachine.Proofs.Installation
import SimpleMachine.Proofs.Invariant
import SimpleMachine.Proofs.Simulation

/-!
# SimpleMachine.Proofs.Containment

The counter of a machine that has been given a program does not leave it.

* `HasProgram m`: the program and the labels are those that some machine has been given.
* `Loaded program m`: the machine has this program, with the table of it. Whatever way a machine has
  been given its program, it is loaded with it (`HasProgram.loaded`).
* `Inside program m`: the counter stands at an instruction or at the end, and every label leads to an
  instruction. A step keeps this (`Inside.step`), and so does a round (`Inside.next`, `Inside.stop`),
  a run (`Inside.runFor`) and every call that leaves the control to the machine (`Inside.call`).
* `Inside.ends`: an execution from inside ends at the end of the program or at a fault in it.
* `counter_stays_inside`: no such call finds the counter outside, and an execution that succeeds ends
  exactly at the end of the program.
-/

namespace SimpleMachine

open Source

/-- The request neither gives the machine a program nor sets its counter or its labels by hand. -/
def Request.leavesControl : Request → Bool
  | .step | .execute _ | .jump _ | .setRegister _ _ | .clearRegisters => true
  | .assemble _ | .read _ _ | .load _ | .setCounter _ | .addLabel _ _ | .resetLabels => false

namespace Machine

/-- A machine that has just been given a program. -/
inductive Supplied : Machine → Prop where
  | assemble {lines : List String} {m m' : Machine} :
      m.assemble lines = (.ok (), m') → Supplied m'
  | read {files : FileTree} {path encoding : String} {m : Machine} :
      (m.read files path encoding).result = .ok true →
      Supplied (m.read files path encoding).machine
  | load (program : List Instruction) (m : Machine) : Supplied (m.load program)

/-- A machine with the program and the labels that one has been given, whatever the rest of its
state. -/
def HasProgram (m : Machine) : Prop :=
  ∃ m₁, Supplied m₁ ∧ m.program = m₁.program ∧ m.labels = m₁.labels

structure Loaded (program : List Instruction) (m : Machine) : Prop where
  program_eq : m.program = program.toArray
  labels_eq : m.labels = labelsOf program

structure Inside (program : Array Instruction) (m : Machine) : Prop where
  program_eq : m.program = program
  address_lt : ∀ name a, m.labels.address? name = some a → 0 ≤ a ∧ a < program.size
  pc_nonneg : 0 ≤ m.pc
  pc_le : m.pc ≤ program.size

/-! ## The table of a program that has been given -/

theorem loaded_load (program : List Instruction) (m : Machine) : Loaded program (m.load program) :=
  ⟨rfl, rfl⟩

theorem Supplied.loaded {m : Machine} (h : Supplied m) : ∃ program, Loaded program m := by
  cases h with
  | assemble ha =>
    obtain ⟨-, rfl⟩ := assemble_eq_ok_iff.1 ha
    exact ⟨_, loaded_load _ _⟩
  | @read files path encoding m₀ hr =>
    obtain ⟨lines, hl, ha⟩ := read_eq_true_iff.1 hr
    have hok : m₀.assemble lines = (.ok (), (m₀.assemble lines).2) := Prod.ext ha rfl
    obtain ⟨-, hm⟩ := assemble_eq_ok_iff.1 hok
    rw [(read_of_lines hl).2, hm]
    exact ⟨_, loaded_load _ m₀⟩
  | load program m₀ => exact ⟨program, loaded_load program m₀⟩

theorem HasProgram.loaded {m : Machine} (h : HasProgram m) : ∃ program, Loaded program m := by
  obtain ⟨m₁, hs, hp, hl⟩ := h
  obtain ⟨program, hm₁⟩ := hs.loaded
  exact ⟨program, hp.trans hm₁.program_eq, hl.trans hm₁.labels_eq⟩

/-- Every label of a program leads to one of its instructions. -/
theorem address_lt_of_labelsOf {program : List Instruction} {name : String} {a : Int}
    (h : (labelsOf program).address? name = some a) : 0 ≤ a ∧ a < program.length := by
  obtain ⟨-, k, rfl, ⟨i, hi, -⟩, -⟩ := ((indexes_labelsOf program).address?_eq_some_iff name a).1 h
  obtain ⟨hk, -⟩ := List.getElem?_eq_some_iff.1 hi
  omega

theorem Loaded.inside {program : List Instruction} {m : Machine} (h : Loaded program m)
    (h₀ : 0 ≤ m.pc) (h₁ : m.pc ≤ m.program.size) : Inside m.program m where
  program_eq := rfl
  address_lt name a ha := by
    rw [h.labels_eq] at ha
    rw [h.program_eq, List.size_toArray]
    exact address_lt_of_labelsOf ha
  pc_nonneg := h₀
  pc_le := h₁

/-! ## Steps, rounds and runs -/

namespace Inside

variable {program : Array Instruction} {m m' : Machine}

theorem congr (h : Inside program m) (hp : m'.program = m.program) (hl : m'.labels = m.labels)
    (h₀ : 0 ≤ m'.pc) (h₁ : m'.pc ≤ program.size) : Inside program m' where
  program_eq := hp.trans h.program_eq
  address_lt := by rw [hl]; exact h.address_lt
  pc_nonneg := h₀
  pc_le := h₁

theorem jump (h : Inside program m) (name : String) : Inside program (m.jump name) := by
  cases ha : m.labels.address? name with
  | none =>
    have hj : m.jump name = m := by simp [Machine.jump, ha]
    rw [hj]
    exact h
  | some a =>
    have hj : m.jump name = { m with pc := a } := by simp [Machine.jump, ha]
    obtain ⟨h₀, h₁⟩ := h.address_lt name a ha
    rw [hj]
    exact h.congr rfl rfl h₀ (Int.le_of_lt h₁)

theorem apply (h : Inside program m) (e : Effect) : Inside program (Machine.apply e m) := by
  cases e with
  | none => exact h
  | write slot v => exact h.congr rfl rfl h.pc_nonneg h.pc_le
  | emit v => exact h.congr rfl rfl h.pc_nonneg h.pc_le
  | jump name => exact h.jump name

/-- The counter may be moved past the instruction that it stands at. -/
theorem advance {i : Instruction} (h : Inside program m) (hi : m.position = .at i)
    (hp : m'.program = m.program) (hl : m'.labels = m.labels) (hpc : m'.pc = m.pc + 1) :
    Inside program m' := by
  obtain ⟨h₀, hget⟩ := position_eq_at_iff.1 hi
  obtain ⟨hlt, -⟩ := Array.getElem?_eq_some_iff.1 hget
  rw [h.program_eq] at hlt
  exact h.congr hp hl (by omega) (by omega)

/-- Inside the program the counter is never before it. -/
theorem not_beforeStart (h : Inside program m) : m.position ≠ .beforeStart := by
  intro hp
  have hneg := position_eq_beforeStart_iff.1 hp
  have hnonneg := h.pc_nonneg
  omega

/-- Inside the program, past the end is at the end. -/
theorem pc_eq_of_pastEnd (h : Inside program m) (hp : m.position = .pastEnd) :
    m.pc = m.program.size := by
  have hge := position_eq_pastEnd_iff.1 hp
  have hle := h.pc_le
  rw [h.program_eq] at hge ⊢
  omega

theorem step {r : Except Failure Bool} (h : Inside program m) (hs : m.step = (r, m')) :
    Inside program m' ∧ ∀ pc, r ≠ .error (.machine (.counterOutOfRange pc)) := by
  cases step_eq_iff.1 hs with
  | halted _ => exact ⟨h, nofun⟩
  | astray hp => exact absurd hp h.not_beforeStart
  | faulted hp _ => exact ⟨h.advance hp rfl rfl rfl, nofun⟩
  | obeyed hp _ =>
    have hadv : Inside program { m with pc := m.pc + 1, steps := m.steps + 1 } :=
      h.advance hp rfl rfl rfl
    exact ⟨hadv.apply _, nofun⟩

theorem next {o : RunOptions} {start : Nat} (h : Inside program m)
    (ht : m.turn o start = .next m') : Inside program m' := by
  cases turn_eq_iff.1 ht with
  | @obeyed i lines e hp _ _ _ =>
    have hadv : Inside program { m.print lines with pc := m.pc + 1, steps := m.steps + 1 } :=
      h.advance hp rfl rfl rfl
    exact hadv.apply e

theorem stop {o : RunOptions} {start : Nat} {r : Except Failure Unit} (h : Inside program m)
    (ht : m.turn o start = .stop r m') :
    Inside program m' ∧ (∀ pc, r ≠ .error (.machine (.counterOutOfRange pc))) ∧
      (r = .ok () → m'.pc = m'.program.size) := by
  cases turn_eq_iff.1 ht with
  | finished hp => exact ⟨h, nofun, fun _ => h.pc_eq_of_pastEnd hp⟩
  | astray hp => exact absurd hp h.not_beforeStart
  | spent _ _ _ =>
    refine ⟨h, fun pc he => ?_, nofun⟩
    cases Failure.eq_of_ofMachine (Except.error.inj he)
  | unshowable _ _ _ => exact ⟨h, nofun, nofun⟩
  | faulted hp _ _ _ => exact ⟨h.advance hp rfl rfl rfl, nofun, nofun⟩

theorem runFor {o : RunOptions} {start rounds : Nat} {r : Except Failure Unit}
    (h : Inside program m) (hr : Machine.runFor o start rounds m = some (r, m')) :
    Inside program m' ∧ (∀ pc, r ≠ .error (.machine (.counterOutOfRange pc))) ∧
      (r = .ok () → m'.pc = m'.program.size) := by
  induction rounds generalizing m with
  | zero => cases hr
  | succ rounds ih =>
    cases ht : m.turn o start with
    | stop r₁ m₁ =>
      simp only [Machine.runFor, ht, Option.some.injEq, Prod.mk.injEq] at hr
      obtain ⟨rfl, rfl⟩ := hr
      exact h.stop ht
    | next m₁ =>
      simp only [Machine.runFor, ht] at hr
      exact ih (h.next ht) hr

theorem steps {k : Nat} (h : Inside program m) (hk : Steps k m m') : Inside program m' := by
  induction hk with
  | refl => exact h
  | cons hs _ ih => exact ih (h.step hs).1

/-- A whole execution ends at the end of the program, or fails at one of its instructions. -/
theorem ends {r : Except Failure Unit} (h : Inside program m) (he : Ends m r m') :
    r = .ok () ∧ m'.pc = program.size ∨
      ∃ f a i, 0 ≤ a ∧ program[a.toNat]? = some i ∧ r = .error (.machine (.fault f a i)) := by
  obtain ⟨k, mk, hk, hstop⟩ := ends_iff.1 he
  have hin := h.steps hk
  cases hstop with
  | halted hp =>
    left
    rw [← hin.program_eq]
    exact ⟨rfl, hin.pc_eq_of_pastEnd hp⟩
  | failed hs =>
    right
    cases step_eq_iff.1 hs with
    | astray hp => exact absurd hp hin.not_beforeStart
    | @faulted i f hp _ =>
      obtain ⟨h₀, hi⟩ := position_eq_at_iff.1 hp
      rw [hin.program_eq] at hi
      exact ⟨f, mk.pc, i, h₀, hi, rfl⟩

end Inside

/-! ## Calls and sessions -/

/-- What holds of a call that is made with the counter inside the program. -/
structure EndsInside (program : Array Instruction) (c : Call) (p : Performed) : Prop where
  inside : Inside program p.machine
  in_range : ∀ pc, p.result ≠ .error (.machine (.counterOutOfRange pc))
  at_end : ∀ o reply, c.request = .execute o → p.result = .ok reply →
    p.machine.pc = p.machine.program.size

theorem Inside.call {program : Array Instruction} {m : Machine} {c : Call} {p : Performed}
    (h : Inside program m) (hc : c.request.leavesControl = true) (hp : c.perform m = some p) :
    EndsInside program c p := by
  obtain ⟨files, rounds, request⟩ := c
  cases request with
  | step =>
    cases hs : m.step with
    | mk r m' =>
      obtain ⟨hin, hr⟩ := h.step hs
      simp only [Call.perform, perform, hs, Option.some.injEq] at hp
      subst hp
      refine ⟨hin, fun pc he => ?_, by rintro o reply ⟨⟩⟩
      exact hr pc (map_eq_error_iff.1 he)
  | execute o =>
    obtain ⟨⟨r, m'⟩, hx, rfl⟩ := Option.map_eq_some_iff.1 hp
    obtain ⟨hin, hr, hend⟩ := h.runFor hx
    refine ⟨hin, fun pc he => hr pc (map_eq_error_iff.1 he), fun _ reply _ hok => hend ?_⟩
    cases r with
    | ok u => rfl
    | error f => cases hok
  | jump name =>
    cases hp
    exact ⟨h.jump name, by rintro pc ⟨⟩, by rintro o reply ⟨⟩⟩
  | setRegister index v =>
    cases hr : m.setRegister index v with
    | error f =>
      simp only [Call.perform, perform, hr, Option.some.injEq] at hp
      subst hp
      refine ⟨h, fun pc he => ?_, by rintro o reply ⟨⟩⟩
      cases he
      exact Failure.ofBank_ne_machine _ _ (setRegister_eq_error hr).symm
    | ok m' =>
      simp only [Call.perform, perform, hr, Option.some.injEq] at hp
      subst hp
      obtain ⟨slot, rfl⟩ := setRegister_eq_ok hr
      have hin : Inside program { m with registers := m.registers.write slot (Int32.ofInt v) } :=
        h.congr rfl rfl h.pc_nonneg h.pc_le
      exact ⟨hin, by rintro pc ⟨⟩, by rintro o reply ⟨⟩⟩
  | clearRegisters =>
    cases hp
    have hin : Inside program { m with registers := m.registers.clear } :=
      h.congr rfl rfl h.pc_nonneg h.pc_le
    exact ⟨hin, by rintro pc ⟨⟩, by rintro o reply ⟨⟩⟩
  | assemble _ => cases hc
  | read _ _ => cases hc
  | load _ => cases hc
  | setCounter _ => cases hc
  | addLabel _ _ => cases hc
  | resetLabels => cases hc

theorem Inside.session {program : Array Instruction} {m m' : Machine} {calls : List Call}
    (h : Inside program m) (hc : ∀ c ∈ calls, c.request.leavesControl = true)
    (hs : Session m calls m') : Inside program m' := by
  induction hs with
  | nil => exact h
  | cons hp _ ih =>
    have hcall := h.call (hc _ List.mem_cons_self) hp
    exact ih hcall.inside fun c hmem => hc c (List.mem_cons_of_mem _ hmem)

/-- A machine has been given a program, and its counter stands in it or at its end. However it is
then stepped, executed, sent to labels and has its registers written, and whether this succeeds or
fails, the counter stays there and is never found out of range; and an execution that succeeds
leaves it exactly at the end. -/
theorem counter_stays_inside {m m' : Machine} {calls : List Call} (hm : HasProgram m)
    (h₀ : 0 ≤ m.pc) (h₁ : m.pc ≤ m.program.size)
    (hc : ∀ c ∈ calls, c.request.leavesControl = true) (hs : Session m calls m') :
    m'.program = m.program ∧ 0 ≤ m'.pc ∧ m'.pc ≤ m'.program.size ∧
    ∀ (c : Call) (p : Performed), c.request.leavesControl = true → c.perform m' = some p →
      0 ≤ p.machine.pc ∧ p.machine.pc ≤ p.machine.program.size ∧
      (∀ pc, p.result ≠ .error (.machine (.counterOutOfRange pc))) ∧
      ∀ o reply, c.request = .execute o → p.result = .ok reply →
        p.machine.pc = p.machine.program.size := by
  obtain ⟨program, hl⟩ := hm.loaded
  have hin := (hl.inside h₀ h₁).session hc hs
  refine ⟨hin.program_eq, hin.pc_nonneg, ?_, fun c p hc' hp => ?_⟩
  · rw [hin.program_eq]
    exact hin.pc_le
  · have hcall := hin.call hc' hp
    refine ⟨hcall.inside.pc_nonneg, ?_, hcall.in_range, hcall.at_end⟩
    rw [hcall.inside.program_eq]
    exact hcall.inside.pc_le

/-- A budget is used up, a division by zero leaves the counter at the last instruction, and the branch
there goes to a label that the program does not have. -/
theorem counter_stays_inside_last :
    let program : List Instruction :=
      [⟨"a", .lin, [.int 0, .int 1]⟩, ⟨"a", .div, [.int 0, .int 0, .int 1]⟩,
        ⟨"b", .bnz, [.int 0, .word "c"]⟩]
    let m : Machine := ({ registers := .zeros 2 } : Machine).load program
    let m' : Machine := { m with pc := 2, registers := (Bank.zeros 2).write 0 1, steps := 1 }
    let run : Call := ⟨{}, 9, .execute {}⟩
    let calls : List Call := [⟨{}, 9, .execute { limit := some 1 }⟩, run]
    HasProgram m ∧ Session m calls m' ∧ m'.pc ≤ m'.program.size ∧
      ∃ p, run.perform m' = some p ∧ p.result = .ok (.output []) ∧
        p.machine.pc = p.machine.program.size := by
  intro program m m' run calls
  have hm : HasProgram m := ⟨m, .load program _, rfl, rfl⟩
  have hs : Session m calls m' := .cons rfl (.cons rfl .nil)
  have hc : ∀ c ∈ calls, c.request.leavesControl = true := by decide
  obtain ⟨-, -, hle, hcall⟩ := counter_stays_inside hm (by decide) (by decide) hc hs
  obtain ⟨p, hp, hr⟩ : ∃ p, run.perform m' = some p ∧ p.result = .ok (.output []) :=
    ⟨_, rfl, rfl⟩
  obtain ⟨-, -, -, hend⟩ := hcall run p rfl hp
  exact ⟨hm, hs, hle, p, hp, hr, hend {} _ rfl hr⟩

end Machine
end SimpleMachine
