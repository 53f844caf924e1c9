import SimpleMachine.Proofs.Reference
import SimpleMachine.Proofs.Simulation

/-!
# SimpleMachine.Proofs.Wrapping

A program without branches and divisions may as well compute with integers of any size, and wrap only
what it ends with.

* `Unbounded`: registers that hold integers of any size, and the integers sent out. `Unbounded.run`
  obeys the instructions of a program one after the other, and wraps nothing.
* `Straight n i`: the instruction loads, adds, subtracts, multiplies, sends or does nothing, on
  registers that a bank of `n` registers has.
* `Wraps x m`: what the machine holds are the integers of `x`, wrapped. An instruction that both obey
  keeps this (`Wraps.step`), for wrapping before an exact operation is wrapping after it; and so does
  a whole program (`Wraps.steps`).
* `wrapping_once_suffices`: a straight program runs to its end, and leaves in the registers and in the
  output the wrapped integers that it leaves without any wrapping.
-/

namespace SimpleMachine

/-- The registers, by index, and the output of a machine without a bound on its integers. -/
structure Unbounded where
  registers : Int → Int
  output : List Int

namespace Unbounded

def set (x : Unbounded) (index v : Int) : Unbounded :=
  { x with registers := Function.update x.registers index v }

def obey (x : Unbounded) (i : Instruction) : Unbounded :=
  match i.opcode, i.operands with
  | .add, [.int d, .int l, .int r] => x.set d (x.registers l + x.registers r)
  | .sub, [.int d, .int l, .int r] => x.set d (x.registers l - x.registers r)
  | .mul, [.int d, .int l, .int r] => x.set d (x.registers l * x.registers r)
  | .lin, [.int d, .int v] => x.set d v
  | .out, .int s :: _ => { x with output := x.output ++ [x.registers s] }
  | _, _ => x

def run (x : Unbounded) (program : List Instruction) : Unbounded := program.foldl obey x

@[simp]
theorem registers_set (x : Unbounded) (index v j : Int) :
    (x.set index v).registers j = if j = index then v else x.registers j :=
  Function.update_apply x.registers index v j

theorem obey_of_onIntegers? {op : Opcode} {f : Int → Int → Int} (h : op.onIntegers? = some f)
    (x : Unbounded) (label : String) (d l r : Int) :
    x.obey ⟨label, op, [.int d, .int l, .int r]⟩ =
      x.set d (f (x.registers l) (x.registers r)) := by
  cases op <;> cases h <;> rfl

end Unbounded

/-- A bank of `n` registers has one with the index. -/
def IsIndex (n : Nat) (index : Int) : Prop := 0 ≤ index ∧ index < n

instance (n : Nat) (index : Int) : Decidable (IsIndex n index) :=
  inferInstanceAs (Decidable (_ ∧ _))

inductive Straight (n : Nat) : Instruction → Prop where
  | arithmetic {label : String} {op : Opcode} {d l r : Int} :
      op = .add ∨ op = .sub ∨ op = .mul → IsIndex n d → IsIndex n l → IsIndex n r →
      Straight n ⟨label, op, [.int d, .int l, .int r]⟩
  | lin {label : String} {d v : Int} : IsIndex n d → Straight n ⟨label, .lin, [.int d, .int v]⟩
  | out {label : String} {s : Int} {rest : List Operand} :
      IsIndex n s → Straight n ⟨label, .out, .int s :: rest⟩
  | noop {label : String} {operands : List Operand} : Straight n ⟨label, .noop, operands⟩

theorem exists_slot_of_isIndex {n : Nat} {index : Int} (h : IsIndex n index) :
    ∃ slot : Nat, index = slot ∧ slot < n := by
  obtain ⟨h₀, h₁⟩ := h
  exact ⟨index.toNat, by omega, by omega⟩

namespace Machine

/-- What the machine holds, as a start for computing without a bound. -/
def unbounded (m : Machine) : Unbounded where
  registers index :=
    match m.registers.get index with
    | .ok v => v
    | .error _ => 0
  output := m.snapshot.output

structure Wraps (x : Unbounded) (m : Machine) : Prop where
  read_eq : ∀ k : Nat, k < m.registers.size → m.registers.read k = Int32.ofInt (x.registers k)
  output_eq : m.output.toList = x.output.map Int32.ofInt

namespace Wraps

variable {x : Unbounded} {m m' : Machine} {i : Instruction}

theorem of_unbounded (m : Machine) : Wraps m.unbounded m where
  read_eq k hk := by simp only [unbounded, Bank.get_of_lt hk, Int32.ofInt_toInt]
  output_eq := by simp [unbounded, snapshot, Function.comp_def]

/-- The counter and the number of steps play no part. -/
theorem count (h : Wraps x m) (pc : Int) (k : Nat) : Wraps x { m with pc, steps := k } where
  read_eq := h.read_eq
  output_eq := h.output_eq

theorem write (h : Wraps x m) {d : Nat} (hd : d < m.registers.size) (v : Int) :
    Wraps (x.set d v) (apply (.write d (Int32.ofInt v)) m) where
  read_eq k hk := by
    have hk' : k < m.registers.size := by simpa using hk
    show (m.registers.write d (Int32.ofInt v)).read k = _
    rw [Bank.read_write hd, h.read_eq k hk', Unbounded.registers_set]
    by_cases hkd : k = d <;> simp [hkd]
  output_eq := h.output_eq

theorem emit (h : Wraps x m) {s : Nat} (hs : s < m.registers.size) :
    Wraps { x with output := x.output ++ [x.registers s] } (apply (.emit (m.registers.read s)) m) where
  read_eq := h.read_eq
  output_eq := by simp [apply, h.output_eq, h.read_eq s hs]

/-- A straight instruction has an effect, and this does to the wrapped integers what it ought to do to
the integers. -/
theorem exists_effect (h : Wraps x m) (hi : Straight m.registers.size i) :
    ∃ e, EffectCase m.registers i e ∧ Wraps (x.obey i) (apply e m) ∧ (apply e m).pc = m.pc := by
  cases hi with
  | @arithmetic label op d l r hop hd hl hr =>
    obtain ⟨d, rfl, hdslot⟩ := exists_slot_of_isIndex hd
    obtain ⟨l, rfl, hlslot⟩ := exists_slot_of_isIndex hl
    obtain ⟨r, rfl, hrslot⟩ := exists_slot_of_isIndex hr
    obtain ⟨f, hf⟩ : ∃ f, op.onIntegers? = some f := by
      rcases hop with rfl | rfl | rfl <;> exact ⟨_, rfl⟩
    obtain ⟨g, hg, hcombine⟩ := combiner?_of_onIntegers? hf
    have hv : g (m.registers.read l) (m.registers.read r) =
        .ok (Int32.ofInt (f (x.registers l) (x.registers r))) := by
      rw [h.read_eq l hlslot, h.read_eq r hrslot, hcombine]
    rw [Unbounded.obey_of_onIntegers? hf]
    exact ⟨_, .combined hg rfl hdslot hlslot hrslot hv, h.write hdslot _, rfl⟩
  | lin hd =>
    obtain ⟨d, rfl, hslot⟩ := exists_slot_of_isIndex hd
    exact ⟨_, .loaded rfl rfl hslot, h.write hslot _, rfl⟩
  | out hs =>
    obtain ⟨s, rfl, hslot⟩ := exists_slot_of_isIndex hs
    exact ⟨_, .sent rfl rfl hslot, h.emit hslot, rfl⟩
  | noop => exact ⟨_, .idle rfl, h, rfl⟩

theorem step (h : Wraps x m) (hp : m.position = .at i) (hi : Straight m.registers.size i) :
    ∃ m', m.step = (.ok true, m') ∧ Wraps (x.obey i) m' ∧ m'.pc = m.pc + 1 ∧
      m'.registers.size = m.registers.size := by
  have hcount := h.count (m.pc + 1) (m.steps + 1)
  obtain ⟨e, he, hw, hpc⟩ := hcount.exists_effect (i := i) hi
  exact ⟨_, (StepCase.obeyed hp (effect_eq_ok_iff.2 he)).step_eq, hw, hpc, by simp⟩

/-- The rest of a straight program is obeyed instruction by instruction. -/
theorem steps {before rest : List Instruction} (h : Wraps x m)
    (hp : m.program = (before ++ rest).toArray) (hpc : m.pc = before.length)
    (hs : ∀ i ∈ rest, Straight m.registers.size i) :
    ∃ m', Steps rest.length m m' ∧ Wraps (x.run rest) m' ∧
      m'.pc = (before ++ rest).length ∧ m'.registers.size = m.registers.size := by
  -- the instructions that have been obeyed go over from the rest to those before it
  induction rest generalizing before x m with
  | nil => exact ⟨m, .refl, h, by simpa using hpc, rfl⟩
  | cons i rest ih =>
    have hat : m.position = .at i := by
      rw [position_eq_at_iff, hp, hpc]
      simp
    obtain ⟨m₁, hs₁, hw₁, hpc₁, hsize₁⟩ := h.step hat (hs i List.mem_cons_self)
    have hprogram : m₁.program = (before ++ [i] ++ rest).toArray := by
      rw [(Steps.step_inv hs₁).2.2, hp]
      simp
    have hpc' : m₁.pc = (before ++ [i]).length := by
      rw [hpc₁, hpc]
      simp
    have hrest : ∀ j ∈ rest, Straight m₁.registers.size j := by
      intro j hj
      rw [hsize₁]
      exact hs j (List.mem_cons_of_mem i hj)
    obtain ⟨m', hk, hw', hend, hsize'⟩ := ih hw₁ hprogram hpc' hrest
    refine ⟨m', .cons hs₁ hk, hw', ?_, hsize'.trans hsize₁⟩
    rw [hend]
    simp

end Wraps

/-- A program of instructions that load, add, subtract, multiply, send out or do nothing, on registers
that are there, is executed to its end. Every register then holds, wrapped, the integer that the same
instructions leave in it when nothing is wrapped, however large the integers become; and so it is with
the output. -/
theorem wrapping_once_suffices {program : List Instruction} {m : Machine}
    (hs : ∀ i ∈ program, Straight m.registers.size i) (hp : m.program = program.toArray)
    (hpc : m.pc = 0) :
    ∃ m', Ends m (.ok ()) m' ∧ m'.registers.size = m.registers.size ∧
      (∀ index, IsIndex m.registers.size index →
        m'.registers.get index = .ok (wrap ((m.unbounded.run program).registers index))) ∧
      m'.snapshot.output = (m.unbounded.run program).output.map wrap := by
  have hp' : m.program = ([] ++ program).toArray := hp
  obtain ⟨m', hk, hw, hend, hsize⟩ := (Wraps.of_unbounded m).steps hp' hpc hs
  have hhalt : m'.position = .pastEnd := by
    rw [position_eq_pastEnd_iff, hk.program_eq, hp, hend]
    simp
  refine ⟨m', (Stops.halted hhalt).ends.of_steps hk, hsize, fun index hindex => ?_, ?_⟩
  · obtain ⟨slot, rfl, hslot⟩ := exists_slot_of_isIndex hindex
    rw [← hsize] at hslot
    rw [Bank.get_of_lt hslot, hw.read_eq slot hslot, wrap]
  · simp [snapshot, hw.output_eq, wrap, Function.comp_def]

/-- The largest integer is raised to its sixth power on the way to the first output, and what is loaded
for the second one is no integer of a register either; the third register keeps what it held. -/
theorem wrapping_once_suffices_power :
    let program : List Instruction :=
      [⟨"a", .mul, [.int 0, .int 0, .int 0]⟩, ⟨"b", .add, [.int 1, .int 0, .int 0]⟩,
        ⟨"c", .mul, [.int 0, .int 1, .int 1]⟩, ⟨"d", .mul, [.int 1, .int 0, .int 1]⟩,
        ⟨"e", .out, [.int 1]⟩, ⟨"f", .noop, []⟩, ⟨"g", .lin, [.int 0, .int (10 ^ 20)]⟩,
        ⟨"h", .sub, [.int 0, .int 0, .int 2]⟩, ⟨"i", .out, [.int 0]⟩]
    let m : Machine :=
      { registers := ((Bank.zeros 3).write 0 Int32.maxValue).write 2 (-5)
        program := program.toArray, output := #[3] }
    (∀ i ∈ program, Straight m.registers.size i) ∧
      (m.unbounded.run program).output = [3, 8 * (2 ^ 31 - 1) ^ 6, 10 ^ 20 + 5] ∧
      ∃ m', Ends m (.ok ()) m' ∧ m'.snapshot.output = [3, 8, 1661992965] ∧
        m'.registers.get 2 = .ok (-5) := by
  intro program m
  have hs : ∀ i ∈ program, Straight m.registers.size i := by
    show ∀ i ∈ program, Straight 3 i
    have harithmetic {label : String} {op : Opcode} {d l r : Int}
        (h : (op = .add ∨ op = .sub ∨ op = .mul) ∧ IsIndex 3 d ∧ IsIndex 3 l ∧ IsIndex 3 r) :
        Straight 3 ⟨label, op, [.int d, .int l, .int r]⟩ := .arithmetic h.1 h.2.1 h.2.2.1 h.2.2.2
    simp only [program, List.forall_mem_cons]
    exact ⟨harithmetic (by decide), harithmetic (by decide), harithmetic (by decide),
      harithmetic (by decide), .out (by decide), .noop, .lin (by decide), harithmetic (by decide),
      .out (by decide), List.forall_mem_nil _⟩
  have hexact : (m.unbounded.run program).output = [3, 8 * (2 ^ 31 - 1) ^ 6, 10 ^ 20 + 5] := by
    decide +kernel
  have hkept : (m.unbounded.run program).registers 2 = -5 := by decide +kernel
  obtain ⟨m', hends, -, hregisters, houtput⟩ := wrapping_once_suffices hs rfl rfl
  refine ⟨hs, hexact, m', hends, ?_, ?_⟩
  · rw [houtput, hexact]
    decide +kernel
  · rw [hregisters 2 (by decide), hkept]
    decide +kernel

end Machine
end SimpleMachine
