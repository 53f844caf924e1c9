import SimpleMachine.Proofs.Containment
import SimpleMachine.Proofs.Effects
import SimpleMachine.Proofs.Simulation
import SimpleMachine.Proofs.WellFormed

/-!
# SimpleMachine.Proofs.Transparency

A no-op that is put into a program, under a label to which nothing branches, changes nothing but the
addresses after it and the number of steps.

* `shifted n a`: the address that the instruction at `a` has once another one has been put in at `n`.
  Labels are shifted in the same way (`address?_insert`).
* `Twins before after x p q`: the left machine is loaded with `before ++ after`, the right one with
  `before ++ x :: after`, and they agree on the registers, the output and the console.
* `Aligned n p q`: the two counters stand at the same instruction, or the right one still stands at
  the one that has been put in. Obeying that one makes up for it (`Twins.catch_up`); a step of the
  left machine is then a step of the right one (`Twins.step`), and where the left one stops, so does
  the right one (`Twins.stop`).
* `visits a k m`: how often the next `k` steps obey the instruction at the address `a`.
* `noop_is_transparent`: the two programs halt, fail or run for ever together, with the same registers
  and the same output; and an assembled text with a remark more is such a program.
-/

namespace SimpleMachine

open Source

namespace Machine

/-- The address of an instruction after another one has been put in at address `n`. -/
def shifted (n : Nat) (a : Int) : Int := if a < n then a else a + 1

/-- The error with the address that its instruction has afterwards. -/
def shiftedError (n : Nat) : MachineError → MachineError
  | .fault f pc i => .fault f (shifted n pc) i
  | .counterOutOfRange pc => .counterOutOfRange (shifted n pc)
  | .stepLimit limit pc i => .stepLimit limit (shifted n pc) i

def shiftedResult (n : Nat) (r : Except Failure Unit) : Except Failure Unit :=
  r.mapError fun
    | .machine e => .machine (shiftedError n e)
    | f => f

/-- How many of the next `k` steps obey the instruction at the address. -/
def visits (a : Int) : Nat → Machine → Nat
  | 0, _ => 0
  | k + 1, m => (if m.pc = a then 1 else 0) + visits a k m.step.2

structure Twins (before after : List Instruction) (x : Instruction) (p q : Machine) : Prop where
  left : Loaded (before ++ after) p
  right : Loaded (before ++ x :: after) q
  registers_eq : q.registers = p.registers
  output_eq : q.output = p.output
  console_eq : q.console = p.console

/-- The counters stand at the same instruction, or the right one at the one before it that has been
put in. -/
def Aligned (n : Nat) (p q : Machine) : Prop := q.pc = shifted n p.pc ∨ p.pc = n ∧ q.pc = n

variable {before after : List Instruction} {x : Instruction} {p q : Machine}

/-! ## Addresses -/

theorem shifted_ne (n : Nat) (a : Int) : shifted n a ≠ n := by
  unfold shifted
  split <;> omega

theorem shifted_inj {n : Nat} {a b : Int} (h : shifted n a = shifted n b) : a = b := by
  unfold shifted at h
  split at h <;> split at h <;> omega

/-- One address further on, the instruction that has been put in may come in between. -/
theorem shifted_succ (n : Nat) (a : Int) :
    shifted n a + 1 = shifted n (a + 1) ∨ a + 1 = n ∧ shifted n a + 1 = n := by
  unfold shifted
  split <;> split <;> omega

/-- Nothing is put in before the program. -/
theorem shiftedResult_astray {n : Nat} {pc : Int} (h : pc < 0) :
    shiftedResult n (.error (.ofMachine (.counterOutOfRange pc))) =
      .error (.ofMachine (.counterOutOfRange (shifted n pc))) := by
  have hpc : shifted n pc = pc := if_pos (by omega)
  rw [hpc, Failure.ofMachine]
  cases (MachineError.counterOutOfRange pc).cause with
  | ok text => simp only [Failure.raise, shiftedResult, Except.mapError, shiftedError, hpc]
  | error e => rfl

theorem shiftedError_inj {n : Nat} {e e' : MachineError}
    (h : shiftedError n e = shiftedError n e') : e = e' := by
  cases e <;> cases e' <;> simp only [shiftedError, MachineError.fault.injEq,
    MachineError.counterOutOfRange.injEq, MachineError.stepLimit.injEq, reduceCtorEq] at h ⊢
  case fault => exact ⟨h.1, shifted_inj h.2.1, h.2.2⟩
  case counterOutOfRange => exact shifted_inj h
  case stepLimit => exact ⟨h.1, shifted_inj h.2.1, h.2.2⟩

theorem getElem?_shifted {a : Int} (h : 0 ≤ a) :
    (before ++ x :: after)[(shifted before.length a).toNat]? = (before ++ after)[a.toNat]? := by
  unfold shifted
  by_cases hlt : a < before.length
  · rw [if_pos hlt, List.getElem?_append_left (by omega), List.getElem?_append_left (by omega)]
  · have hk : (a + 1).toNat - before.length = a.toNat - before.length + 1 := by omega
    rw [if_neg hlt, List.getElem?_append_right (by omega), List.getElem?_append_right (by omega), hk,
      List.getElem?_cons_succ]

theorem shifted_nonneg {n : Nat} {a : Int} : 0 ≤ shifted n a ↔ 0 ≤ a := by
  unfold shifted
  split <;> omega

/-- A label other than that of the new instruction still leads to the instruction that it led to. -/
theorem address?_insert {name : String} (h : name ≠ x.label) :
    (labelsOf (before ++ x :: after)).address? name =
      ((labelsOf (before ++ after)).address? name).map (shifted before.length) := by
  rw [address?_labelsOf, address?_labelsOf]
  by_cases hn : name = ""
  · simp [hn]
  · have hx : ¬ decide (x.label = name) = true := by simpa using h.symm
    rw [if_neg hn, if_neg hn, List.findIdx?_append, List.findIdx?_append, List.findIdx?_cons,
      if_neg hx]
    -- the first instruction with the label comes before the place of insertion, after it, or nowhere
    cases hb : before.findIdx? fun i => decide (i.label = name) with
    | some k =>
      obtain ⟨hk, -⟩ := List.findIdx?_eq_some_iff_getElem.1 hb
      have hlt : (k : Int) < before.length := by omega
      simp [shifted, hlt]
    | none =>
      cases after.findIdx? fun i => decide (i.label = name) with
      | none => rfl
      | some k =>
        have hle : ¬ (k : Int) + before.length < before.length := by omega
        simp [shifted, hle]
        omega

/-! ## Twins -/

namespace Twins

/-- The counter and the number of steps play no part. -/
theorem count (h : Twins before after x p q) (pc pc' : Int) (k k' : Nat) :
    Twins before after x { p with pc, steps := k } { q with pc := pc', steps := k' } where
  left := ⟨h.left.program_eq, h.left.labels_eq⟩
  right := ⟨h.right.program_eq, h.right.labels_eq⟩
  registers_eq := h.registers_eq
  output_eq := h.output_eq
  console_eq := h.console_eq

theorem jump (h : Twins before after x p q) (name : String) :
    Twins before after x (p.jump name) (q.jump name) := by
  obtain ⟨a, ha⟩ := jump_eq name p
  obtain ⟨a', ha'⟩ := jump_eq name q
  rw [ha, ha']
  exact h.count a a' p.steps q.steps

theorem apply (h : Twins before after x p q) (e : Effect) :
    Twins before after x (Machine.apply e p) (Machine.apply e q) := by
  cases e with
  | none => exact h
  | write slot v =>
    refine ⟨⟨h.left.program_eq, h.left.labels_eq⟩, ⟨h.right.program_eq, h.right.labels_eq⟩, ?_,
      h.output_eq, h.console_eq⟩
    exact congrArg (fun b : Bank => b.write slot v) h.registers_eq
  | emit v =>
    refine ⟨⟨h.left.program_eq, h.left.labels_eq⟩, ⟨h.right.program_eq, h.right.labels_eq⟩,
      h.registers_eq, ?_, ?_⟩
    · exact congrArg (fun output : Array Int32 => output.push v) h.output_eq
    · exact congrArg (fun console : Array String => console.push _) h.console_eq
  | jump name => exact h.jump name

/-- A jump leads both machines to the same instruction, or leaves both where they are. -/
theorem aligned_jump (h : Twins before after x p q) (ha : Aligned before.length p q)
    {name : String} (hn : name ≠ x.label) :
    Aligned before.length (p.jump name) (q.jump name) := by
  have hlabel : q.labels.address? name = (p.labels.address? name).map (shifted before.length) := by
    rw [h.left.labels_eq, h.right.labels_eq]
    exact address?_insert hn
  cases hp : p.labels.address? name with
  | none =>
    rw [hp] at hlabel
    simpa [Machine.jump, hp, hlabel] using ha
  | some a =>
    rw [hp] at hlabel
    left
    simp [Machine.jump, hp, hlabel]

theorem aligned_apply (h : Twins before after x p q) (ha : Aligned before.length p q) {e : Effect}
    (hn : ∀ name, e = .jump name → name ≠ x.label) :
    Aligned before.length (Machine.apply e p) (Machine.apply e q) := by
  cases e with
  | none => exact ha
  | write slot v => exact ha
  | emit v => exact ha
  | jump name => exact h.aligned_jump ha (hn name rfl)

/-- Past the instruction that has been put in, both machines stand at the same one. -/
theorem position_eq (h : Twins before after x p q) (hpc : q.pc = shifted before.length p.pc) :
    q.position = p.position := by
  have hp := h.left.program_eq
  have hq := h.right.program_eq
  cases hpos : p.position with
  | pastEnd =>
    rw [position_eq_pastEnd_iff, hp] at hpos
    rw [position_eq_pastEnd_iff, hq, hpc, shifted]
    simp only [List.size_toArray, List.length_append, List.length_cons] at hpos ⊢
    split <;> omega
  | beforeStart =>
    rw [position_eq_beforeStart_iff] at hpos ⊢
    rw [hpc, ← Int.not_le, shifted_nonneg, Int.not_le]
    exact hpos
  | «at» i =>
    obtain ⟨h₀, hi⟩ := position_eq_at_iff.1 hpos
    rw [hp, List.getElem?_toArray] at hi
    rw [position_eq_at_iff, hq, List.getElem?_toArray, hpc, getElem?_shifted h₀]
    exact ⟨shifted_nonneg.2 h₀, hi⟩

/-- If the right machine still stands at the instruction that has been put in, it obeys it. -/
theorem catch_up (h : Twins before after x p q) (ha : Aligned before.length p q)
    (hx : x.opcode = .noop) :
    ∃ j q', Steps j q q' ∧ Twins before after x p q' ∧ q'.pc = shifted before.length p.pc ∧
      visits before.length j q = j := by
  rcases ha with hpc | ⟨hp, hq⟩
  · exact ⟨0, q, .refl, h, hpc, rfl⟩
  · have hat : q.position = .at x := by
      rw [position_eq_at_iff, h.right.program_eq, hq]
      simp
    have he : x.effect q.registers = .ok .none := by simp [Instruction.effect, hx]
    refine ⟨1, _, .single (StepCase.obeyed hat he).step_eq, ?_, ?_, ?_⟩
    · exact h.count p.pc (q.pc + 1) p.steps (q.steps + 1)
    · show q.pc + 1 = shifted before.length p.pc
      rw [hq, hp, shifted, if_neg (Int.lt_irrefl _)]
    · simp [visits, hq]

theorem step {p' : Machine} (h : Twins before after x p q)
    (hpc : q.pc = shifted before.length p.pc)
    (ht : ∀ i ∈ before ++ after, i.target? ≠ some x.label) (hs : p.step = (.ok true, p')) :
    ∃ q', q.step = (.ok true, q') ∧ Twins before after x p' q' ∧ Aligned before.length p' q' := by
  cases step_eq_iff.1 hs with
  | @obeyed i e hp he =>
    have hq : q.position = .at i := (h.position_eq hpc).trans hp
    have he' : i.effect q.registers = .ok e := by rw [h.registers_eq, he]
    have hmem : i ∈ before ++ after := by
      obtain ⟨-, hi⟩ := position_eq_at_iff.1 hp
      rw [h.left.program_eq, List.getElem?_toArray] at hi
      exact List.mem_of_getElem? hi
    have hcount := h.count (p.pc + 1) (q.pc + 1) (p.steps + 1) (q.steps + 1)
    have haligned : Aligned before.length { p with pc := p.pc + 1, steps := p.steps + 1 }
        { q with pc := q.pc + 1, steps := q.steps + 1 } := by
      show q.pc + 1 = shifted before.length (p.pc + 1) ∨ _
      rw [hpc]
      exact shifted_succ before.length p.pc
    refine ⟨_, (StepCase.obeyed hq he').step_eq, hcount.apply e,
      hcount.aligned_apply haligned fun name hname hlabel => ?_⟩
    subst hname hlabel
    exact ht i hmem (target?_of_effect he)

theorem stop {r : Except Failure Unit} {p' : Machine} (h : Twins before after x p q)
    (hpc : q.pc = shifted before.length p.pc) (hs : Stops p r p') :
    ∃ q', Stops q (shiftedResult before.length r) q' ∧ Twins before after x p' q' ∧
      p'.steps = p.steps ∧ q'.steps = q.steps := by
  cases hs with
  | halted hp =>
    exact ⟨q, .halted ((h.position_eq hpc).trans hp), h, rfl, rfl⟩
  | failed hs =>
    cases step_eq_iff.1 hs with
    | astray hp =>
      have hq : q.position = .beforeStart := (h.position_eq hpc).trans hp
      refine ⟨q, ?_, h, rfl, rfl⟩
      rw [shiftedResult_astray (position_eq_beforeStart_iff.1 hp), ← hpc]
      exact .failed (StepCase.astray hq).step_eq
    | @faulted i f hp he =>
      have hq : q.position = .at i := (h.position_eq hpc).trans hp
      have he' : i.effect q.registers = .error f := by rw [h.registers_eq, he]
      refine ⟨{ q with pc := q.pc + 1 }, ?_, h.count (p.pc + 1) (q.pc + 1) p.steps q.steps, rfl, rfl⟩
      simp only [shiftedResult, Except.mapError, shiftedError, ← hpc]
      exact .failed (StepCase.faulted hq he').step_eq

end Twins

/-! ## The two executions -/

theorem visits_add {a : Int} {j : Nat} {m m' : Machine} (h : Steps j m m') (k : Nat) :
    visits a (j + k) m = visits a j m + visits a k m' := by
  induction h with
  | refl => simp [visits]
  | @cons j m m₁ m' hs _ ih =>
    rw [show j + 1 + k = j + k + 1 by omega, visits, visits, hs, ih, Nat.add_assoc]

/-- The right machine is a twin that the execution from `m₀` has reached; it is ahead in steps by its
visits to the instruction that has been put in. -/
structure Follows (before after : List Instruction) (x : Instruction) (m₀ p q : Machine) :
    Prop where
  twins : Twins before after x p q
  aligned : Aligned before.length p q
  steps_eq : ∃ k, Steps k m₀ q ∧ q.steps = p.steps + visits before.length k m₀

structure EndsAlike (before after : List Instruction) (x : Instruction) (m₀ : Machine)
    (r : Except Failure Unit) (p : Machine) (r' : Except Failure Unit) (q : Machine) : Prop where
  result_eq : r' = shiftedResult before.length r
  twins : Twins before after x p q
  steps_eq : ∃ k, q.steps = m₀.steps + k ∧ q.steps = p.steps + visits before.length k m₀

theorem simulation_insert (hx : x.opcode = .noop)
    (ht : ∀ i ∈ before ++ after, i.target? ≠ some x.label) (m₀ : Machine) :
    Simulation (Follows before after x m₀) (EndsAlike before after x m₀) where
  step := by
    rintro p q p' ⟨h, ha, k, hk, hsteps⟩ hs
    -- the right machine makes up for the no-op if it stands there, and only then steps with the left
    obtain ⟨j, q₁, hj, h₁, hpc, hvisits⟩ := h.catch_up ha hx
    obtain ⟨q₂, hs₂, h₂, ha₂⟩ := h₁.step hpc ht hs
    have hone : Steps 1 q₁ q₂ := .single hs₂
    refine ⟨j + 1, q₂, Nat.succ_pos j, hj.trans hone, h₂, ha₂, k + (j + 1),
      hk.trans (hj.trans hone), ?_⟩
    have hnot : visits before.length 1 q₁ = 0 := by
      simp [visits, hpc, shifted_ne]
    rw [visits_add hk, visits_add hj, hvisits, hnot, hone.steps_eq, hj.steps_eq, hsteps,
      (Steps.step_inv hs).2.1]
    omega
  stop := by
    rintro p q r p' ⟨h, ha, k, hk, hsteps⟩ hs
    obtain ⟨j, q₁, hj, h₁, hpc, hvisits⟩ := h.catch_up ha hx
    obtain ⟨q₂, hs₂, h₂, hp', hq₂⟩ := h₁.stop hpc hs
    refine ⟨_, q₂, hs₂.ends.of_steps hj, rfl, h₂, k + j, ?_, ?_⟩
    · rw [hq₂, (hk.trans hj).steps_eq]
    · rw [visits_add hk, hvisits, hq₂, hj.steps_eq, hsteps, hp']
      omega

theorem follows_load {m : Machine} (hpc : m.pc = 0) :
    Follows before after x (m.load (before ++ x :: after)) (m.load (before ++ after))
      (m.load (before ++ x :: after)) where
  twins := ⟨loaded_load _ m, loaded_load _ m, rfl, rfl, rfl⟩
  aligned := by
    show m.pc = shifted before.length m.pc ∨ m.pc = before.length ∧ m.pc = before.length
    unfold shifted
    split <;> omega
  steps_eq := ⟨0, .refl, rfl⟩

theorem shiftedResult_inj {n : Nat} {r r' : Except Failure Unit}
    (h : shiftedResult n r = shiftedResult n r') : r = r' := by
  cases r with
  | ok u => cases r' with
    | ok u' => rfl
    | error f' => cases h
  | error f => cases r' with
    | ok u' => cases h
    | error f' =>
      simp only [shiftedResult, Except.mapError, Except.error.injEq] at h ⊢
      cases f <;> cases f' <;> simp_all only [Failure.machine.injEq, reduceCtorEq]
      exact shiftedError_inj h

/-- The right execution ends exactly where the left one does, in the same way. -/
theorem exists_ends_insert_iff {m : Machine} (hx : x.opcode = .noop)
    (ht : ∀ i ∈ before ++ after, i.target? ≠ some x.label) (hpc : m.pc = 0)
    (r : Except Failure Unit) :
    (∃ p, Ends (m.load (before ++ after)) r p) ↔
      ∃ q, Ends (m.load (before ++ x :: after)) (shiftedResult before.length r) q := by
  have hsim := simulation_insert hx ht (m.load (before ++ x :: after))
  have hfollows : Follows before after x _ (m.load (before ++ after)) _ := follows_load hpc
  constructor
  · rintro ⟨p, hp⟩
    obtain ⟨r', q, hq, hend⟩ := hsim.ends hfollows hp
    rw [hend.result_eq] at hq
    exact ⟨q, hq⟩
  · rintro ⟨q, hq⟩
    obtain ⟨r₁, p, hp, hend⟩ := hsim.ends_of_right hfollows hq
    rw [← shiftedResult_inj hend.result_eq] at hp
    exact ⟨p, hp⟩

/-! ## Remarks in a text -/

theorem lineIntegers_of_noop {mode : Mode} {line : String} (hl : lineInstruction? mode line = some x)
    (hx : x.opcode = .noop) : lineIntegers line = [] := by
  obtain ⟨-, hr⟩ := lineInstruction?_eq_some_iff.1 hl
  rcases readStatement_eq_ok_iff.1 hr with ⟨hop, -⟩ | ⟨op, operands, hop, -, rfl⟩
  · rw [lineIntegers, statementIntegers, hop]
  · exact absurd hx (ofWord?_ne_noop hop)

/-- A text that can be assembled can be assembled with a remark more, which becomes a no-op. -/
theorem assemble_insert {lines lines' : List String} {line : String} {m m' : Machine}
    (hl : lineInstruction? m.mode line = some x) (hx : x.opcode = .noop)
    (h : m.assemble (lines ++ lines') = (.ok (), m')) :
    m' = m.load (lines.filterMap (lineInstruction? m.mode) ++
        lines'.filterMap (lineInstruction? m.mode)) ∧
      m.assemble (lines ++ line :: lines') =
        (.ok (), m.load (lines.filterMap (lineInstruction? m.mode) ++
          x :: lines'.filterMap (lineInstruction? m.mode))) := by
  obtain ⟨hn, rfl⟩ := assemble_eq_ok_iff.1 h
  rw [List.filterMap_append]
  refine ⟨rfl, assemble_eq_ok_iff.2 ⟨?_, ?_⟩⟩
  · rw [firstRefused_append] at hn ⊢
    rw [firstRefused_cons, lineIntegers_of_noop hl hx]
    exact hn
  · rw [List.filterMap_append, List.filterMap_cons_some hl]

/-- A program with a no-op put into it, whose label nothing branches to, halts, fails or runs for ever
exactly when the program without it does. Where they end, their registers, their output and what they
print are the same; a fault is the same, at the same instruction; and the one makes as many more
steps as it obeys that no-op. A text with a remark more is assembled into such a program. -/
theorem noop_is_transparent {m : Machine} (hx : x.opcode = .noop)
    (ht : ∀ i ∈ before ++ after, i.target? ≠ some x.label) (hpc : m.pc = 0) :
    ((∃ p, Ends (m.load (before ++ after)) (.ok ()) p) ↔
      ∃ q, Ends (m.load (before ++ x :: after)) (.ok ()) q) ∧
    (∀ f a i, (∃ p, Ends (m.load (before ++ after)) (.error (.machine (.fault f a i))) p) ↔
      ∃ q, Ends (m.load (before ++ x :: after))
        (.error (.machine (.fault f (if a < before.length then a else a + 1) i))) q) ∧
    (RunsForever (m.load (before ++ after)) ↔ RunsForever (m.load (before ++ x :: after))) ∧
    (∀ r p r' q, Ends (m.load (before ++ after)) r p → Ends (m.load (before ++ x :: after)) r' q →
      (r = .ok () ∧ r' = .ok () ∨ ∃ f a i, 0 ≤ a ∧ (before ++ after)[a.toNat]? = some i ∧
        r = .error (.machine (.fault f a i)) ∧
        r' = .error (.machine (.fault f (if a < before.length then a else a + 1) i))) ∧
      q.registers = p.registers ∧ q.output = p.output ∧ q.console = p.console ∧
      q.steps = p.steps +
        visits before.length (q.steps - m.steps) (m.load (before ++ x :: after))) ∧
    ∀ lines line lines' m', lineInstruction? m.mode line = some x →
      lines.filterMap (lineInstruction? m.mode) = before →
      lines'.filterMap (lineInstruction? m.mode) = after →
      m.assemble (lines ++ lines') = (.ok (), m') →
      m' = m.load (before ++ after) ∧
        m.assemble (lines ++ line :: lines') = (.ok (), m.load (before ++ x :: after)) := by
  have hsim := simulation_insert hx ht (m.load (before ++ x :: after))
  have hfollows : Follows before after x _ (m.load (before ++ after)) _ := follows_load hpc
  refine ⟨exists_ends_insert_iff hx ht hpc (.ok ()), fun f a i => ?_, hsim.runsForever_iff hfollows,
    ?_, ?_⟩
  · exact exists_ends_insert_iff hx ht hpc (.error (.machine (.fault f a i)))
  · intro r p r' q hp hq
    obtain ⟨r₁, q₁, hq₁, hresult, htwins, k, hk, hsteps⟩ := hsim.ends hfollows hp
    obtain ⟨rfl, rfl⟩ := hq₁.unique hq
    have hin : Inside (before ++ after).toArray (m.load (before ++ after)) :=
      (loaded_load (before ++ after) m).inside (Int.le_of_eq hpc.symm) (by show m.pc ≤ _; omega)
    refine ⟨?_, htwins.registers_eq, htwins.output_eq, htwins.console_eq, ?_⟩
    · rcases hin.ends hp with ⟨rfl, -⟩ | ⟨f, a, i, h₀, hi, rfl⟩
      · exact .inl ⟨rfl, hresult⟩
      · exact .inr ⟨f, a, i, h₀, by simpa using hi, rfl, hresult⟩
    · have hm : (m.load (before ++ x :: after)).steps = m.steps := rfl
      rw [hm] at hk
      rw [show q₁.steps - m.steps = k by omega]
      exact hsteps
  · rintro lines line lines' m' hl rfl rfl ha
    exact assemble_insert hl hx ha

/-- A loop goes twice past a no-op whose label another instruction has, and then the program divides by
zero. -/
theorem noop_is_transparent_loop :
    let i : Instruction := ⟨"e", .div, [.int 1, .int 1, .int 0]⟩
    let before : List Instruction :=
      [⟨"a", .lin, [.int 0, .int 2]⟩, ⟨"b", .lin, [.int 1, .int 1]⟩, ⟨"c", .out, [.int 0]⟩]
    let x : Instruction := ⟨"b", .noop, []⟩
    let after : List Instruction :=
      [⟨"d", .sub, [.int 0, .int 0, .int 1]⟩, ⟨"d", .bnz, [.int 0, .word "c"]⟩, i]
    let m : Machine := { registers := .zeros 2 }
    (∀ i ∈ before ++ after, i.target? ≠ some x.label) ∧
      ∃ p q, Ends (m.load (before ++ after)) (.error (.machine (.fault .divisionByZero 5 i))) p ∧
        Ends (m.load (before ++ x :: after)) (.error (.machine (.fault .divisionByZero 6 i))) q ∧
        p.snapshot.output = [2, 1] ∧ q.output = p.output ∧ p.steps = 8 ∧ q.steps = 10 ∧
        visits 3 10 (m.load (before ++ x :: after)) = 2 := by
  intro i before x after m
  have ht : ∀ i ∈ before ++ after, i.target? ≠ some x.label := by decide
  obtain ⟨-, -, -, hend, -⟩ := noop_is_transparent (m := m) rfl ht rfl
  have hp : Ends (m.load (before ++ after)) (.error (.machine (.fault .divisionByZero 5 i)))
      { m.load (before ++ after) with
        pc := 6, registers := (m.registers.write 0 0).write 1 1, output := #[2, 1],
        console := #["2", "1"], steps := 8 } := ⟨9, by decide +kernel⟩
  have hq : Ends (m.load (before ++ x :: after)) (.error (.machine (.fault .divisionByZero 6 i)))
      { m.load (before ++ x :: after) with
        pc := 7, registers := (m.registers.write 0 0).write 1 1, output := #[2, 1],
        console := #["2", "1"], steps := 10 } := ⟨11, by decide +kernel⟩
  obtain ⟨-, -, houtput, -, hsteps⟩ := hend _ _ _ _ hp hq
  have hvisits : 10 = 8 + visits 3 10 (m.load (before ++ x :: after)) := hsteps
  exact ⟨ht, _, _, hp, hq, rfl, houtput, rfl, rfl, by omega⟩

end Machine
end SimpleMachine
