import Mathlib.Data.List.Basic
import Mathlib.Logic.Equiv.Basic
import SimpleMachine.Proofs.Effects
import SimpleMachine.Proofs.Installation
import SimpleMachine.Proofs.Simulation

/-!
# SimpleMachine.Proofs.Renaming

The names of labels do not matter.

* `Instruction.rename f`: the instruction with its label and the target of its branch renamed. What it
  does to the registers is the same, and where it went to a label it goes to the renamed one
  (`Instruction.effect_rename`).
* `LabelTable.Renames f t u`: `u` has the names of `t`, renamed and in the same order, with the same
  addresses. An injective renaming that leaves the empty name alone makes such a table out of the table
  of a program (`renames_labelsOf`).
* `Renamed f p q`: the right machine has the program of the left one, renamed, finds under a renamed
  name what the left one finds under the name, and agrees with it in all the rest. A step keeps this
  (`Renamed.step`), and so does any number of them (`Renamed.after`), a round (`Renamed.turn`) and an
  execution (`Renamed.runFor`).
* `label_names_do_not_matter`: a program and its renaming run in step, and fail in step.
-/

namespace SimpleMachine

/-! ## Renamed instructions -/

/-- The operands of a branch, with the label to which it goes renamed. -/
def renameTarget (f : String → String) : List Operand → List Operand
  | s :: .word name :: rest => s :: .word (f name) :: rest
  | operands => operands

def Instruction.rename (f : String → String) (i : Instruction) : Instruction where
  label := f i.label
  opcode := i.opcode
  operands := if i.opcode = .bnz then renameTarget f i.operands else i.operands

def Effect.rename (f : String → String) : Effect → Effect
  | .jump name => .jump (f name)
  | e => e

/-- The error with its instruction renamed; the cause and the address are the same. -/
def MachineError.rename (f : String → String) : MachineError → MachineError
  | .fault cause pc i => .fault cause pc (i.rename f)
  | .counterOutOfRange pc => .counterOutOfRange pc
  | .stepLimit limit pc i => .stepLimit limit pc (i.rename f)

def Failure.rename (f : String → String) : Failure → Failure
  | .machine e => .machine (e.rename f)
  | e => e

variable {f : String → String}

theorem MachineError.cause_rename (e : MachineError) : (e.rename f).cause = e.cause := by
  cases e <;> rfl

/-- Whether an error can be put into words does not depend on the names in its instruction. -/
theorem Failure.rename_ofMachine (e : MachineError) :
    (ofMachine e).rename f = ofMachine (e.rename f) := by
  rw [ofMachine, ofMachine, MachineError.cause_rename]
  cases e.cause <;> rfl

theorem Bank.branch_renameTarget (b : Bank) (operands : List Operand) :
    b.branch (renameTarget f operands) = (b.branch operands).map (Effect.rename f) := by
  rcases operands with - | ⟨s, - | ⟨target, - | ⟨o, rest⟩⟩⟩
  case nil => rfl
  case cons.nil => rfl
  case cons.cons.nil =>
    cases hs : b.register s with
    | error e => cases target <;> simp only [renameTarget, branch, hs] <;> rfl
    | ok src =>
      cases target with
      | int v => simp only [renameTarget, branch, hs]; rfl
      | word name =>
        simp only [renameTarget, branch, hs]
        show Except.ok (if b.read src ≠ 0 then Effect.jump (f name) else .none) =
          .ok (Effect.rename f (if b.read src ≠ 0 then .jump name else .none))
        split <;> rfl
  case cons.cons.cons => cases target <;> rfl

/-- An instruction does the same under its new names, but for the name of the label it goes to. -/
theorem Instruction.effect_rename (b : Bank) (i : Instruction) :
    (i.rename f).effect b = (i.effect b).map (Effect.rename f) := by
  by_cases hop : i.opcode = .bnz
  · simp only [Instruction.rename, Instruction.effect, hop, if_true]
    exact b.branch_renameTarget i.operands
  · have hsame : (i.rename f).effect b = i.effect b := by
      simp only [Instruction.rename, Instruction.effect, if_neg hop]
    rw [hsame]
    cases he : i.effect b with
    | error e => rfl
    | ok e =>
      cases e with
      | jump name =>
        cases effect_eq_ok_iff.1 he with
        | gone hbnz _ _ _ => exact absurd hbnz hop
      | _ => rfl

/-! ## Renamed tables -/

def LabelTable.Renames (f : String → String) (t u : LabelTable) : Prop :=
  u.entries = t.entries.map (Prod.map f id)

namespace LabelTable.Renames

variable {t u : LabelTable}

theorem names_eq (h : Renames f t u) : u.names = t.names.map f := by
  rw [names, h, names, List.map_map, List.map_map]
  rfl

theorem address?_eq (hf : Function.Injective f) (h : Renames f t u) (name : String) :
    u.address? (f name) = t.address? name := by
  rw [address?, address?, h]
  induction t.entries with
  | nil => rfl
  | cons entry entries ih =>
    obtain ⟨defined, address⟩ := entry
    simp only [List.map_cons, Prod.map_apply, List.lookup_cons, hf.beq_eq, ih]
    rfl

theorem add (hf : Function.Injective f) (h : Renames f t u) (name : String) (address : Int) :
    Renames f (t.add name address) (u.add (f name) address) := by
  by_cases hn : name ∈ t.names
  · have hfn : f name ∈ u.names := by
      rw [h.names_eq]
      exact List.mem_map_of_mem hn
    rwa [add_of_mem hn, add_of_mem hfn]
  · have hfn : f name ∉ u.names := by
      rwa [h.names_eq, List.mem_map_of_injective hf]
    rw [Renames, entries_add_of_notMem hn, entries_add_of_notMem hfn, h, List.map_append]
    rfl

end LabelTable.Renames

namespace Machine

/-- Labels that are there stay apart and stay there, so each is still found where it was defined
first. -/
theorem renames_labelsOf (hf : Function.Injective f) (h₀ : f "" = "") (program : List Instruction) :
    (labelsOf program).Renames f (labelsOf (program.map (Instruction.rename f))) := by
  -- from the end, as the table is filled from the front
  induction program using List.reverseRecOn with
  | nil => rfl
  | append_singleton program i ih =>
    rw [List.map_append, List.map_singleton, labelsOf_concat, labelsOf_concat, List.length_map]
    by_cases hi : i.label = ""
    · have hfi : (i.rename f).label = "" := by rw [Instruction.rename, hi, h₀]
      rwa [if_pos hi, if_pos hfi]
    · have hfi : (i.rename f).label ≠ "" := fun e => hi (hf (e.trans h₀.symm))
      rw [if_neg hi, if_neg hfi]
      exact ih.add hf i.label program.length

/-! ## Renamed machines -/

structure Renamed (f : String → String) (p q : Machine) : Prop where
  program_eq : q.program = p.program.map (Instruction.rename f)
  address?_eq : ∀ name, q.labels.address? (f name) = p.labels.address? name
  pc_eq : q.pc = p.pc
  alike : Alike p q

/-- The machine after it has been told to step a number of times, whether it did or failed. -/
def after : Nat → Machine → Machine
  | 0, m => m
  | k + 1, m => after k m.step.2

/-- How two executions end that differ in names alone. -/
def EndRenamed (f : String → String) (x y : Except Failure Unit × Machine) : Prop :=
  y.1 = x.1.mapError (Failure.rename f) ∧ Renamed f x.2 y.2

inductive TurnRenamed (f : String → String) : Turn → Turn → Prop where
  | stop {r : Except Failure Unit} {p q : Machine} :
      Renamed f p q → TurnRenamed f (.stop r p) (.stop (r.mapError (Failure.rename f)) q)
  | next {p q : Machine} : Renamed f p q → TurnRenamed f (.next p) (.next q)

theorem renamed_load (hf : Function.Injective f) (h₀ : f "" = "") (program : List Instruction)
    (m : Machine) :
    Renamed f (m.load program) (m.load (program.map (Instruction.rename f))) where
  program_eq := by simp
  address?_eq := (renames_labelsOf hf h₀ program).address?_eq hf
  pc_eq := rfl
  alike := ⟨rfl, rfl, rfl, rfl⟩

namespace Renamed

variable {p q : Machine} {i : Instruction}

theorem pastEnd (h : Renamed f p q) (hp : p.position = .pastEnd) : q.position = .pastEnd := by
  rw [position_eq_pastEnd_iff] at hp ⊢
  rwa [h.program_eq, h.pc_eq, Array.size_map]

theorem beforeStart (h : Renamed f p q) (hp : p.position = .beforeStart) :
    q.position = .beforeStart := by
  rw [position_eq_beforeStart_iff] at hp ⊢
  rwa [h.pc_eq]

theorem position_at (h : Renamed f p q) (hp : p.position = .at i) :
    q.position = .at (i.rename f) := by
  rw [position_eq_at_iff] at hp ⊢
  rw [h.program_eq, h.pc_eq, Array.getElem?_map, hp.2]
  exact ⟨hp.1, rfl⟩

theorem effect_of_error {cause : Fault} (h : Renamed f p q)
    (he : i.effect p.registers = .error cause) :
    (i.rename f).effect q.registers = .error cause := by
  rw [h.alike.registers_eq, Instruction.effect_rename, he]
  rfl

theorem effect_of_ok {e : Effect} (h : Renamed f p q) (he : i.effect p.registers = .ok e) :
    (i.rename f).effect q.registers = .ok (e.rename f) := by
  rw [h.alike.registers_eq, Instruction.effect_rename, he]
  rfl

/-- The counters of both machines move on by one, and the steps are counted or not. -/
theorem advance (h : Renamed f p q) (k : Nat) :
    Renamed f { p with pc := p.pc + 1, steps := p.steps + k }
      { q with pc := q.pc + 1, steps := q.steps + k } where
  program_eq := h.program_eq
  address?_eq := h.address?_eq
  pc_eq := congrArg (· + 1) h.pc_eq
  alike := { h.alike with steps_eq := congrArg (· + k) h.alike.steps_eq }

theorem jump (h : Renamed f p q) (name : String) : (q.jump (f name)).pc = (p.jump name).pc := by
  unfold Machine.jump
  rw [h.address?_eq name]
  cases p.labels.address? name with
  | none => exact h.pc_eq
  | some a => rfl

theorem apply (h : Renamed f p q) (e : Effect) :
    Renamed f (Machine.apply e p) (Machine.apply (e.rename f) q) where
  program_eq := by simp [h.program_eq]
  address?_eq := by simpa using h.address?_eq
  pc_eq := by
    cases e with
    | jump name => exact h.jump name
    | _ => exact h.pc_eq
  alike := by
    cases e with
    | jump name => exact h.alike.jump name (f name)
    | _ => exact h.alike.apply _

/-- The right machine answers what the left one does, with the instruction renamed if it failed. -/
theorem step (h : Renamed f p q) :
    q.step.1 = p.step.1.mapError (Failure.rename f) ∧ Renamed f p.step.2 q.step.2 := by
  have hc := stepCase_step p
  generalize p.step.1 = r, p.step.2 = p' at hc ⊢
  cases hc with
  | halted hp =>
    rw [(StepCase.halted (h.pastEnd hp)).step_eq]
    exact ⟨rfl, h⟩
  | astray hp =>
    rw [(StepCase.astray (h.beforeStart hp)).step_eq, h.pc_eq, Except.mapError,
      Failure.rename_ofMachine]
    exact ⟨rfl, h⟩
  | faulted hp he =>
    rw [(StepCase.faulted (h.position_at hp) (h.effect_of_error he)).step_eq]
    exact ⟨by rw [h.pc_eq]; rfl, h.advance 0⟩
  | obeyed hp he =>
    rw [(StepCase.obeyed (h.position_at hp) (h.effect_of_ok he)).step_eq]
    exact ⟨rfl, (h.advance 1).apply _⟩

theorem after (h : Renamed f p q) (k : Nat) : Renamed f (Machine.after k p) (Machine.after k q) := by
  induction k generalizing p q with
  | zero => exact h
  | succ k ih => exact ih h.step.2

theorem stop_ofMachine (h : Renamed f p q) (e : MachineError) :
    TurnRenamed f (.stop (.error (.ofMachine e)) p) (.stop (.error (.ofMachine (e.rename f))) q) := by
  rw [← Failure.rename_ofMachine]
  exact .stop h

theorem turn (h : Renamed f p q) (limit : Option Int) (start : Nat) :
    TurnRenamed f (p.turn { limit } start) (q.turn { limit } start) := by
  have hsteps := h.alike.steps_eq
  have hc := turnCase_turn { limit } start p
  generalize p.turn { limit } start = t at hc ⊢
  cases hc with
  | finished hp =>
    rw [(TurnCase.finished (h.pastEnd hp)).turn_eq]
    exact .stop h
  | astray hp =>
    rw [(TurnCase.astray (h.beforeStart hp)).turn_eq, h.pc_eq]
    exact stop_ofMachine h _
  | spent hp hn hle =>
    rw [← hsteps] at hle
    rw [(TurnCase.spent (h.position_at hp) hn hle).turn_eq, h.pc_eq]
    exact stop_ofMachine h (.stepLimit _ _ _)
  | unshowable _ _ hl => cases hl
  | faulted hp ha hl he =>
    cases hl
    rw [← hsteps] at ha
    rw [(TurnCase.faulted (h.position_at hp) ha rfl (h.effect_of_error he)).turn_eq, h.pc_eq]
    exact .stop (by simpa [h.pc_eq] using h.advance 0)
  | obeyed hp ha hl he =>
    cases hl
    rw [← hsteps] at ha
    rw [(TurnCase.obeyed (h.position_at hp) ha rfl (h.effect_of_ok he)).turn_eq]
    exact .next (by simpa using (h.advance 1).apply _)

theorem runFor (h : Renamed f p q) (limit : Option Int) (start rounds : Nat) :
    Option.Rel (EndRenamed f) (Machine.runFor { limit } start rounds p)
      (Machine.runFor { limit } start rounds q) := by
  induction rounds generalizing p q with
  | zero => exact .none
  | succ rounds ih =>
    have ht := h.turn limit start
    unfold Machine.runFor
    generalize p.turn { limit } start = t, q.turn { limit } start = u at ht ⊢
    cases ht with
    | stop h' => exact .some ⟨rfl, h'⟩
    | next h' => exact ih h'

end Renamed

/-- Renaming the labels and the targets of a program, so that different names stay different and the
empty name stays empty, renames the table of its labels and nothing else. The two programs, loaded
into one machine, have the same counter, registers, output, number of steps and printed lines after
any number of steps; they fail together, at the same address and for the same cause; and so do their
executions under any budget. -/
theorem label_names_do_not_matter (hf : Function.Injective f) (h₀ : f "" = "")
    (program : List Instruction) (m : Machine) :
    let p := m.load program
    let q := m.load (program.map (Instruction.rename f))
    (q.labels.names = p.labels.names.map f ∧
        ∀ name, q.labels.address? (f name) = p.labels.address? name) ∧
      (∀ k, (after k q).pc = (after k p).pc ∧ Alike (after k p) (after k q) ∧
        (after k q).step.1 = (after k p).step.1.mapError (Failure.rename f)) ∧
      ∀ limit rounds,
        Option.Rel (EndRenamed f) (p.execute { limit } rounds) (q.execute { limit } rounds) := by
  intro p q
  have hrenamed : Renamed f p q := renamed_load hf h₀ program m
  refine ⟨⟨(renames_labelsOf hf h₀ program).names_eq, hrenamed.address?_eq⟩, fun k => ?_,
    fun limit rounds => ?_⟩
  · have hk := hrenamed.after k
    exact ⟨hk.pc_eq, hk.alike, hk.step.1⟩
  · exact hrenamed.runFor limit m.steps rounds

/-- Two labels change places, each of them defined twice; one branch goes to the empty name and one
to a name that is not defined. -/
theorem label_names_do_not_matter_swap :
    let f : String → String := Equiv.swap "a" "b"
    let program : List Instruction :=
      [⟨"a", .lin, [.int 0, .int 2]⟩, ⟨"", .bnz, [.int 0, .word ""]⟩,
        ⟨"b", .sub, [.int 0, .int 0, .int 1]⟩, ⟨"a", .out, [.int 0]⟩,
        ⟨"c", .bnz, [.int 0, .word "b"]⟩, ⟨"d", .bnz, [.int 1, .word "e"]⟩,
        ⟨"b", .div, [.int 0, .int 1, .int 0]⟩]
    let m : Machine := { registers := (Bank.zeros 2).write 1 1 }
    let q := m.load (program.map (Instruction.rename f))
    Function.Injective f ∧ f "" = "" ∧ q.labels.names = ["b", "a", "c", "d"] ∧
      q.labels.address? "a" = some 2 ∧ (after 9 q).snapshot = ⟨6, [0, 1], [1, 0], 9⟩ ∧
      (after 9 q).step.1 =
        .error (.machine (.fault .divisionByZero 6 ⟨"a", .div, [.int 0, .int 1, .int 0]⟩)) := by
  intro f program m q
  have hf : Function.Injective f := (Equiv.swap "a" "b").injective
  have h₀ : f "" = "" := by decide
  obtain ⟨⟨hnames, haddress⟩, hafter, -⟩ := label_names_do_not_matter hf h₀ program m
  obtain ⟨hpc, halike, hstep⟩ := hafter 9
  refine ⟨hf, h₀, hnames.trans (by decide), (haddress "b").trans (by decide), ?_, ?_⟩
  · rw [snapshot, hpc, halike.registers_eq, halike.output_eq, halike.steps_eq]
    decide +kernel
  · rw [hstep]
    decide +kernel

end Machine
end SimpleMachine
