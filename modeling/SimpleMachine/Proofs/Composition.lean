import SimpleMachine.Proofs.Containment
import SimpleMachine.Proofs.Effects

/-!
# SimpleMachine.Proofs.Composition

Two programs, one after the other in one program, run like the first of them and then, on what it
leaves, the second.

* `start program m`: the machine is given the program, and its counter is set to the beginning.
* `Avoids program other`: no branch of the program goes to a label of the other one.
* `EndsInTurn first second m r m'`: the first program is executed and, if that returns, the second
  one; the result is `r`, and `m'` is left.
* `Embedded before inner after p q`: the left machine has the program `inner`, the right one has it
  between two others, and they stand at the same instruction with the same data. Labels that only
  `inner` has lead to the same place (`address?_embed`), so that every step of the left machine is
  one of the right (`Embedded.step`), and so is every fault (`Embedded.fault`). While the first
  program runs, it is embedded with nothing before it; while the second one runs, with nothing after
  it (`embedded_start`, `Embedded.proceed`).
* `concatenation_runs_in_turn`: the programs in one halt, fail or run for ever exactly when they do so
  in turn, with the same registers, output, printed lines and number of steps.
-/

namespace SimpleMachine
namespace Machine

/-- The machine with a program, about to execute it from its beginning. -/
def start (program : List Instruction) (m : Machine) : Machine := (m.load program).setCounter 0

/-- No branch of a program goes to a label that another one defines. -/
def Avoids (program other : List Instruction) : Prop :=
  ∀ i ∈ program, ∀ name ∈ labelsOf other, i.target? ≠ some name

instance (program other : List Instruction) : Decidable (Avoids program other) :=
  inferInstanceAs
    (Decidable (∀ i ∈ program, ∀ name ∈ (labelsOf other).names, i.target? ≠ some name))

/-- What executing the first program and, if it returns, the second one on what is left comes to. A
fault in the second program is reported at the address that it has behind the first. -/
inductive EndsInTurn (first second : List Instruction) (m : Machine) :
    Except Failure Unit → Machine → Prop where
  | returned {p q : Machine} :
      Ends (m.start first) (.ok ()) p → Ends (p.start second) (.ok ()) q →
      EndsInTurn first second m (.ok ()) q
  | failedFirst {f : Fault} {a : Int} {i : Instruction} {p : Machine} :
      Ends (m.start first) (.error (.machine (.fault f a i))) p →
      EndsInTurn first second m (.error (.machine (.fault f a i))) p
  | failedSecond {f : Fault} {a : Int} {i : Instruction} {p q : Machine} :
      Ends (m.start first) (.ok ()) p → Ends (p.start second) (.error (.machine (.fault f a i))) q →
      EndsInTurn first second m (.error (.machine (.fault f (a + first.length) i))) q

structure Embedded (before inner after : List Instruction) (p q : Machine) : Prop where
  left : Loaded inner p
  right : Loaded (before ++ inner ++ after) q
  pc_eq : q.pc = p.pc + before.length
  alike : Alike p q

variable {before inner after : List Instruction} {p q : Machine}

/-! ## Labels -/

/-- A label that no other part of the program defines leads to the instruction of the inner part to
which it leads there, or to none. -/
theorem address?_embed {name : String} (hb : name ∉ labelsOf before) (ha : name ∉ labelsOf after) :
    (labelsOf (before ++ inner ++ after)).address? name =
      ((labelsOf inner).address? name).map (· + (before.length : Int)) := by
  have hnone : ∀ {program : List Instruction}, name ≠ "" → name ∉ labelsOf program →
      (program.findIdx? fun i => decide (i.label = name)) = none := by
    intro program hn hnot
    have hlookup := LabelTable.address?_eq_none_iff.2 hnot
    rwa [address?_labelsOf, if_neg hn, Option.map_eq_none_iff] at hlookup
  rw [address?_labelsOf, address?_labelsOf]
  by_cases hn : name = ""
  · simp [hn]
  · rw [if_neg hn, if_neg hn, List.findIdx?_append, List.findIdx?_append, hnone hn hb, hnone hn ha]
    cases inner.findIdx? fun i => decide (i.label = name) <;> simp

/-! ## A program inside another one -/

namespace Embedded

/-- The counters of both machines move on by one, and the steps are counted or not. -/
theorem advance (h : Embedded before inner after p q) (k : Nat) :
    Embedded before inner after { p with pc := p.pc + 1, steps := p.steps + k }
      { q with pc := q.pc + 1, steps := q.steps + k } where
  left := ⟨h.left.program_eq, h.left.labels_eq⟩
  right := ⟨h.right.program_eq, h.right.labels_eq⟩
  pc_eq := by
    show q.pc + 1 = p.pc + 1 + before.length
    rw [h.pc_eq]
    omega
  alike :=
    { h.alike with steps_eq := congrArg (· + k) h.alike.steps_eq }

/-- A jump to a label of the inner part, or to one that is nowhere, is the same for both. -/
theorem jump (h : Embedded before inner after p q) {name : String} (hb : name ∉ labelsOf before)
    (ha : name ∉ labelsOf after) : (q.jump name).pc = (p.jump name).pc + before.length := by
  have hlabel : q.labels.address? name =
      (p.labels.address? name).map (· + (before.length : Int)) := by
    rw [h.left.labels_eq, h.right.labels_eq]
    exact address?_embed hb ha
  cases hp : p.labels.address? name with
  | none =>
    rw [hp] at hlabel
    simpa [Machine.jump, hp, hlabel] using h.pc_eq
  | some a =>
    rw [hp] at hlabel
    simp [Machine.jump, hp, hlabel]

theorem apply (h : Embedded before inner after p q) {e : Effect}
    (hb : ∀ name, e = .jump name → name ∉ labelsOf before)
    (ha : ∀ name, e = .jump name → name ∉ labelsOf after) :
    Embedded before inner after (Machine.apply e p) (Machine.apply e q) where
  left := ⟨(program_apply e p).trans h.left.program_eq, (labels_apply e p).trans h.left.labels_eq⟩
  right :=
    ⟨(program_apply e q).trans h.right.program_eq, (labels_apply e q).trans h.right.labels_eq⟩
  pc_eq := by
    cases e with
    | none => exact h.pc_eq
    | write slot v => exact h.pc_eq
    | emit v => exact h.pc_eq
    | jump name => exact h.jump (hb name rfl) (ha name rfl)
  alike := h.alike.apply e

theorem position_eq {i : Instruction} (h : Embedded before inner after p q)
    (hp : p.position = .at i) : q.position = .at i := by
  obtain ⟨h₀, hi⟩ := position_eq_at_iff.1 hp
  rw [h.left.program_eq, List.getElem?_toArray] at hi
  obtain ⟨hlt, -⟩ := List.getElem?_eq_some_iff.1 hi
  rw [position_eq_at_iff, h.right.program_eq, List.getElem?_toArray, h.pc_eq]
  have hindex : (p.pc + before.length).toNat = before.length + p.pc.toNat := by omega
  refine ⟨by omega, ?_⟩
  rw [hindex, List.getElem?_append_left (by rw [List.length_append]; omega),
    List.getElem?_append_right (Nat.le_add_right _ _), Nat.add_sub_cancel_left]
  exact hi

theorem step {p' : Machine} (h : Embedded before inner after p q) (hb : Avoids inner before)
    (ha : Avoids inner after) (hs : p.step = (.ok true, p')) :
    ∃ q', q.step = (.ok true, q') ∧ Embedded before inner after p' q' := by
  cases step_eq_iff.1 hs with
  | @obeyed i e hp he =>
    have he' : i.effect q.registers = .ok e := by rw [h.alike.registers_eq, he]
    have hmem : i ∈ inner := by
      obtain ⟨-, hi⟩ := position_eq_at_iff.1 hp
      rw [h.left.program_eq, List.getElem?_toArray] at hi
      exact List.mem_of_getElem? hi
    refine ⟨_, (StepCase.obeyed (h.position_eq hp) he').step_eq, (h.advance 1).apply ?_ ?_⟩
    · rintro name rfl hname
      exact hb i hmem name hname (target?_of_effect he)
    · rintro name rfl hname
      exact ha i hmem name hname (target?_of_effect he)

theorem fault {f : Fault} {a : Int} {i : Instruction} {p' : Machine}
    (h : Embedded before inner after p q)
    (hs : p.step = (.error (.machine (.fault f a i)), p')) :
    ∃ q', q.step = (.error (.machine (.fault f (a + before.length) i)), q') ∧
      Embedded before inner after p' q' := by
  obtain ⟨hp, he, rfl, rfl⟩ := step_fault_inv hs
  have he' : i.effect q.registers = .error f := by rw [h.alike.registers_eq, he]
  rw [← h.pc_eq]
  exact ⟨_, (StepCase.faulted (h.position_eq hp) he').step_eq, h.advance 0⟩

theorem steps {k : Nat} {p' : Machine} (h : Embedded before inner after p q)
    (hb : Avoids inner before) (ha : Avoids inner after) (hk : Steps k p p') :
    ∃ q', Steps k q q' ∧ Embedded before inner after p' q' := by
  induction hk generalizing q with
  | refl => exact ⟨q, .refl, h⟩
  | cons hs _ ih =>
    obtain ⟨q₁, hs₁, h₁⟩ := h.step hb ha hs
    obtain ⟨q₂, hk₂, h₂⟩ := ih h₁
    exact ⟨q₂, .cons hs₁ hk₂, h₂⟩

/-- Where the inner program returns, the whole one stands behind it. -/
theorem returned {p' : Machine} (h : Embedded before inner after p q) (hb : Avoids inner before)
    (ha : Avoids inner after) (he : Ends p (.ok ()) p') :
    ∃ k q', Steps k q q' ∧ Embedded before inner after p' q' := by
  obtain ⟨k, pk, hk, hstop⟩ := ends_iff.1 he
  obtain ⟨qk, hk', h'⟩ := h.steps hb ha hk
  cases hstop with
  | halted _ => exact ⟨k, qk, hk', h'⟩

theorem failed {f : Fault} {a : Int} {i : Instruction} {p' : Machine}
    (h : Embedded before inner after p q) (hb : Avoids inner before) (ha : Avoids inner after)
    (he : Ends p (.error (.machine (.fault f a i))) p') :
    ∃ q', Ends q (.error (.machine (.fault f (a + before.length) i))) q' ∧ Alike p' q' := by
  obtain ⟨k, pk, hk, hstop⟩ := ends_iff.1 he
  obtain ⟨qk, hk', h'⟩ := h.steps hb ha hk
  cases hstop with
  | failed hs =>
    obtain ⟨q', hs', hq'⟩ := h'.fault hs
    exact ⟨q', (Stops.failed hs').ends.of_steps hk', hq'.alike⟩

theorem runsForever (h : Embedded before inner after p q) (hb : Avoids inner before)
    (ha : Avoids inner after) (hf : RunsForever p) : RunsForever q := by
  rw [runsForever_iff] at hf ⊢
  intro k
  obtain ⟨pk, hk⟩ := hf k
  obtain ⟨qk, hk', -⟩ := h.steps hb ha hk
  exact ⟨qk, hk'⟩

end Embedded

/-! ## The first program, and then the second -/

variable {first second : List Instruction} {m : Machine}

theorem embedded_start : Embedded [] first second (m.start first) (m.start (first ++ second)) where
  left := ⟨rfl, rfl⟩
  right := ⟨rfl, rfl⟩
  pc_eq := rfl
  alike := ⟨rfl, rfl, rfl, rfl⟩

/-- Behind the first program the second one begins. -/
theorem Embedded.proceed (h : Embedded [] first second p q) (hpc : p.pc = first.length) :
    Embedded first second [] (p.start second) q where
  left := ⟨rfl, rfl⟩
  right := by simpa using h.right
  pc_eq := by
    show q.pc = 0 + first.length
    rw [h.pc_eq, hpc]
    simp
  alike :=
    ⟨h.alike.registers_eq, h.alike.output_eq, h.alike.console_eq, h.alike.steps_eq⟩

/-- A program that is executed from its beginning returns at its end, or fails with a fault. -/
theorem ends_start {program : List Instruction} {r : Except Failure Unit} {m' : Machine}
    (he : Ends (m.start program) r m') :
    r = .ok () ∧ m'.pc = program.length ∨ ∃ f a i, r = .error (.machine (.fault f a i)) := by
  have hl : Loaded program (m.start program) := ⟨rfl, rfl⟩
  have hin : Inside (m.start program).program (m.start program) :=
    hl.inside (Int.le_refl 0) (Int.natCast_nonneg _)
  rcases hin.ends he with hok | ⟨f, a, i, -, -, hr⟩
  · exact .inl hok
  · exact .inr ⟨f, a, i, hr⟩

theorem pc_of_returned {program : List Instruction} {m' : Machine}
    (he : Ends (m.start program) (.ok ()) m') : m'.pc = program.length := by
  rcases ends_start he with ⟨-, hpc⟩ | ⟨f, a, i, hr⟩
  · exact hpc
  · cases hr

/-- When the first program returns, the two in one have come to the second. -/
theorem exists_steps_of_returned (ha : Avoids first second)
    (he : Ends (m.start first) (.ok ()) p) :
    ∃ k q, Steps k (m.start (first ++ second)) q ∧ Embedded first second [] (p.start second) q := by
  obtain ⟨k, q, hk, h⟩ := embedded_start.returned (by rintro i - name ⟨⟩) ha he
  exact ⟨k, q, hk, h.proceed (pc_of_returned he)⟩

theorem EndsInTurn.ends {r : Except Failure Unit} {m' : Machine} (h₁ : Avoids first second)
    (h₂ : Avoids second first) (h : EndsInTurn first second m r m') :
    ∃ q, Ends (m.start (first ++ second)) r q ∧ Alike m' q ∧
      (r = .ok () → m'.pc = second.length ∧ q.pc = first.length + second.length) := by
  have hnil : ∀ program, Avoids program [] := by rintro program i - name ⟨⟩
  cases h with
  | returned hp hq =>
    obtain ⟨k, q₁, hk, hemb⟩ := exists_steps_of_returned h₁ hp
    obtain ⟨j, q₂, hj, hemb₂⟩ := hemb.returned h₂ (hnil second) hq
    have hpc := pc_of_returned hq
    have hpc₂ : q₂.pc = first.length + second.length := by
      rw [hemb₂.pc_eq, hpc, Int.add_comm]
    have hend : q₂.position = .pastEnd := by
      rw [position_eq_pastEnd_iff, hemb₂.right.program_eq, hpc₂]
      simp
    exact ⟨q₂, (Stops.halted hend).ends.of_steps (hk.trans hj), hemb₂.alike, fun _ => ⟨hpc, hpc₂⟩⟩
  | failedFirst hp =>
    obtain ⟨q, hq, halike⟩ := embedded_start.failed (hnil first) h₁ hp
    rw [List.length_nil, Int.natCast_zero, Int.add_zero] at hq
    exact ⟨q, hq, halike, nofun⟩
  | failedSecond hp hq =>
    obtain ⟨k, q₁, hk, hemb⟩ := exists_steps_of_returned h₁ hp
    obtain ⟨q₂, hq₂, halike⟩ := hemb.failed h₂ (hnil second) hq
    exact ⟨q₂, hq₂.of_steps hk, halike, nofun⟩

/-- In turn, the two programs come to an end unless one of them runs for ever. -/
theorem endsInTurn_or_runsForever (first second : List Instruction) (m : Machine) :
    (∃ r m', EndsInTurn first second m r m') ∨ RunsForever (m.start first) ∨
      ∃ p, Ends (m.start first) (.ok ()) p ∧ RunsForever (p.start second) := by
  by_cases hf : RunsForever (m.start first)
  · exact .inr (.inl hf)
  obtain ⟨r, p, hp⟩ := ends_of_not_runsForever hf
  rcases ends_start hp with ⟨rfl, -⟩ | ⟨f, a, i, rfl⟩
  · by_cases hs : RunsForever (p.start second)
    · exact .inr (.inr ⟨p, hp, hs⟩)
    obtain ⟨r, q, hq⟩ := ends_of_not_runsForever hs
    rcases ends_start hq with ⟨rfl, -⟩ | ⟨f, a, i, rfl⟩
    · exact .inl ⟨_, q, .returned hp hq⟩
    · exact .inl ⟨_, q, .failedSecond hp hq⟩
  · exact .inl ⟨_, p, .failedFirst hp⟩

theorem runsForever_start_append (h₁ : Avoids first second) (h₂ : Avoids second first)
    (hf : RunsForever (m.start first) ∨
      ∃ p, Ends (m.start first) (.ok ()) p ∧ RunsForever (p.start second)) :
    RunsForever (m.start (first ++ second)) := by
  rcases hf with hf | ⟨p, hp, hf⟩
  · exact embedded_start.runsForever (by rintro i - name ⟨⟩) h₁ hf
  · obtain ⟨k, q, hk, hemb⟩ := exists_steps_of_returned h₁ hp
    have hq := hemb.runsForever h₂ (by rintro i - name ⟨⟩) hf
    -- any number of steps from where the second program begins gives that number from the start
    rw [runsForever_iff] at hq ⊢
    intro j
    obtain ⟨qj, hj⟩ := hq j
    exact (hk.trans hj).take (Nat.le_add_left j k)

/-- Two programs, neither of which branches to a label of the other, are executed as one program. This
halts, fails or goes on for ever exactly when executing the first and then, on what it leaves, the
second one does, with the same fault at the same instruction. Both ways leave the same registers,
output, printed lines and number of steps, and where they halt, the counter is at the end of the
program. -/
theorem concatenation_runs_in_turn (h₁ : Avoids first second) (h₂ : Avoids second first)
    (m : Machine) :
    (∀ r, (∃ q, Ends (m.start (first ++ second)) r q) ↔ ∃ p, EndsInTurn first second m r p) ∧
    (RunsForever (m.start (first ++ second)) ↔ RunsForever (m.start first) ∨
      ∃ p, Ends (m.start first) (.ok ()) p ∧ RunsForever (p.start second)) ∧
    ∀ r p q, EndsInTurn first second m r p → Ends (m.start (first ++ second)) r q →
      q.registers = p.registers ∧ q.output = p.output ∧ q.console = p.console ∧
      q.steps = p.steps ∧
      (r = .ok () → p.pc = second.length ∧ q.pc = first.length + second.length) := by
  refine ⟨fun r => ⟨?_, ?_⟩, ⟨?_, runsForever_start_append h₁ h₂⟩, ?_⟩
  · rintro ⟨q, hq⟩
    rcases endsInTurn_or_runsForever first second m with ⟨r', p, hp⟩ | hf
    · obtain ⟨q', hq', -⟩ := hp.ends h₁ h₂
      obtain ⟨rfl, -⟩ := hq'.unique hq
      exact ⟨p, hp⟩
    · exact absurd (runsForever_start_append h₁ h₂ hf) hq.not_runsForever
  · rintro ⟨p, hp⟩
    obtain ⟨q, hq, -⟩ := hp.ends h₁ h₂
    exact ⟨q, hq⟩
  · intro hf
    rcases endsInTurn_or_runsForever first second m with ⟨r, p, hp⟩ | hturn
    · obtain ⟨q, hq, -⟩ := hp.ends h₁ h₂
      exact absurd hf hq.not_runsForever
    · exact hturn
  · intro r p q hp hq
    obtain ⟨q', hq', halike, hpc⟩ := hp.ends h₁ h₂
    obtain ⟨-, rfl⟩ := hq'.unique hq
    exact ⟨halike.registers_eq, halike.output_eq, halike.console_eq, halike.steps_eq, hpc⟩

/-- A loop in the first program, two labels that both have, branches to a label that none has, and a
division by zero in the second program. -/
theorem concatenation_runs_in_turn_loop :
    let i : Instruction := ⟨"g", .div, [.int 1, .int 1, .int 0]⟩
    let first : List Instruction :=
      [⟨"a", .lin, [.int 0, .int 2]⟩, ⟨"b", .lin, [.int 1, .int 1]⟩, ⟨"c", .out, [.int 0]⟩,
        ⟨"d", .sub, [.int 0, .int 0, .int 1]⟩, ⟨"d", .bnz, [.int 0, .word "c"]⟩,
        ⟨"e", .bnz, [.int 1, .word "z"]⟩]
    let second : List Instruction :=
      [⟨"a", .out, [.int 1]⟩, ⟨"b", .bnz, [.int 1, .word "f"]⟩, ⟨"f", .bnz, [.int 1, .word "z"]⟩, i]
    let m : Machine := { registers := .zeros 2, steps := 3 }
    Avoids first second ∧ Avoids second first ∧
      ∃ p q, Ends (m.start first) (.ok ()) p ∧
        Ends (p.start second) (.error (.machine (.fault .divisionByZero 3 i))) q ∧
        ∃ q', Ends (m.start (first ++ second)) (.error (.machine (.fault .divisionByZero 9 i))) q' ∧
          q'.registers = q.registers ∧ q'.output = q.output ∧ q.snapshot.output = [2, 1, 1] ∧
          q'.steps = 15 := by
  intro i first second m
  have h₁ : Avoids first second := by decide
  have h₂ : Avoids second first := by decide
  let p : Machine :=
    { m.start first with
      pc := 6, registers := (m.registers.write 0 0).write 1 1, output := #[2, 1],
      console := #["2", "1"], steps := 12 }
  let q : Machine :=
    { p.start second with pc := 4, output := #[2, 1, 1], console := #["2", "1", "1"], steps := 15 }
  have hp : Ends (m.start first) (.ok ()) p := ⟨10, by decide +kernel⟩
  have hq : Ends (p.start second) (.error (.machine (.fault .divisionByZero 3 i))) q :=
    ⟨4, by decide +kernel⟩
  obtain ⟨hends, -, hsame⟩ := concatenation_runs_in_turn h₁ h₂ m
  obtain ⟨q', hq'⟩ := (hends _).2 ⟨q, .failedSecond hp hq⟩
  obtain ⟨hregisters, houtput, -, hsteps, -⟩ := hsame _ _ _ (.failedSecond hp hq) hq'
  exact ⟨h₁, h₂, p, q, hp, hq, q', hq', hregisters, houtput, rfl, hsteps⟩

end Machine
end SimpleMachine
