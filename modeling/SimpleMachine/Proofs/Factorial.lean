import Mathlib.Data.Nat.Factorial.Basic
import SimpleMachine.Proofs.Effects
import SimpleMachine.Proofs.LineEnds
import SimpleMachine.Proofs.Reference
import SimpleMachine.Proofs.Rereading
import SimpleMachine.Proofs.Simulation

/-!
# SimpleMachine.Proofs.Factorial

The factorial loop, from its text to what it prints.

* `text n`, `program n`: the program for the factorial of `n`, as it is written and as it is read.
  It is read into just these instructions, in either mode (`assemble_text`).
* `Turned n k m`: what the machine holds after `k` turns of the loop. The counter is `n - k`, and
  the product has the `k` factors from `n` down, wrapped.
* `Turned.turn`, `Turned.loop`: a turn takes three steps, and leads back to the start of the loop
  until the counter is zero.
* `factorial_loop_correct`: the wrapped factorial is printed, after exactly `3 * n + 4` steps; a
  budget of fewer steps is used up, and any other has no influence. That a budget is used up is
  reported unless its limit is too far below zero to be shown (`runText_of_far_limit`).
-/

namespace SimpleMachine
namespace Factorial

open Source Machine

def text (n : Nat) : String :=
  "f0 lin 20 " ++ Numeral.text n ++ "\nf1 lin 21 1\nf2 lin 22 1\nf3 mul 21 21 20\n" ++
    "f4 sub 20 20 22\nf5 bnz 20 f3\nf6 out 21\n"

def program (n : Nat) : List Instruction :=
  [⟨"f0", .lin, [.int 20, .int n]⟩, ⟨"f1", .lin, [.int 21, .int 1]⟩,
    ⟨"f2", .lin, [.int 22, .int 1]⟩, ⟨"f3", .mul, [.int 21, .int 21, .int 20]⟩,
    ⟨"f4", .sub, [.int 20, .int 20, .int 22]⟩, ⟨"f5", .bnz, [.int 20, .word "f3"]⟩,
    ⟨"f6", .out, [.int 21]⟩]

example : text 6 =
    "f0 lin 20 6\nf1 lin 21 1\nf2 lin 22 1\nf3 mul 21 21 20\n" ++
      "f4 sub 20 20 22\nf5 bnz 20 f3\nf6 out 21\n" := by
  decide +kernel

/-! ## Reading the text -/

/-- The lines after the first one. -/
def fixedLines : List String :=
  ["f1 lin 21 1", "f2 lin 22 1", "f3 mul 21 21 20", "f4 sub 20 20 22", "f5 bnz 20 f3", "f6 out 21"]

def firstLine (n : Nat) : String := "f0 lin 20 " ++ Numeral.text n

theorem printedText_lines (n : Nat) : printedText (firstLine n :: fixedLines) = text n := by
  rw [← String.toList_inj]
  simp [printedText, firstLine, fixedLines, text, String.toList_append]

theorem lineInstruction?_firstLine {n : Nat} (hn : n ≤ 2 ^ 31 - 1) (mode : Mode) :
    lineInstruction? mode (firstLine n) = some ⟨"f0", .lin, [.int 20, .int n]⟩ := by
  have hfits : FitsRegister n := by
    unfold FitsRegister minInt maxInt
    omega
  have hop : Opcode.lin ≠ .noop := nofun
  have hw : Writes Opcode.lin.operandKinds [.int 20, .int n]
      [(Numeral.text 20).toList, (Numeral.text n).toList] :=
    .int (by decide) (.int hfits .nil)
  have hlabel : Solid ['f', '0'] := by decide
  have hregister : (Numeral.text 20).toList = ['2', '0'] := by decide
  have hline : firstLine n = String.ofList (['f', '0'] ++ spaced (Opcode.lin.name.toList ::
      [(Numeral.text 20).toList, (Numeral.text n).toList])) := by
    rw [← String.toList_inj, String.toList_ofList, firstLine, String.toList_append, hregister]
    simp [Opcode.name]
  rw [hline]
  exact lineInstruction?_words hop hlabel hw mode

theorem lineInstruction?_lines {n : Nat} (hn : n ≤ 2 ^ 31 - 1) (mode : Mode) :
    (firstLine n :: fixedLines).map (lineInstruction? mode) = (program n).map some := by
  have hfixed : fixedLines.map (lineInstruction? mode) = (program n).tail.map some := by
    cases mode <;> rfl
  rw [List.map_cons, lineInstruction?_firstLine hn, hfixed]
  rfl

theorem isLineBreak_of_mem_firstLine {n : Nat} {c : Char} (h : c ∈ (firstLine n).toList) :
    Text.isLineBreak c = false := by
  rw [firstLine, String.toList_append, List.mem_append] at h
  rcases h with h | h
  · have hall : ("f0 lin 20 ".toList.all fun c => !Text.isLineBreak c) = true := by decide
    simpa using List.all_eq_true.1 hall c h
  · cases hb : Text.isLineBreak c with
    | false => rfl
    | true =>
      have hspace := ((solid_text n).2 c h).2
      rw [Text.isSpace_of_isLineBreak hb] at hspace
      cases hspace

/-- The text is read into the program, in either mode. -/
theorem assemble_text {n : Nat} (hn : n ≤ 2 ^ 31 - 1) (m : Machine) :
    m.assemble (Text.textLines (text n).toList) = (.ok (), m.load (program n)) := by
  have hlines : ∀ line ∈ firstLine n :: fixedLines,
      ∀ c ∈ line.toList, Text.isLineBreak c = false := by
    intro line hline c hc
    rcases List.mem_cons.1 hline with rfl | hline
    · exact isLineBreak_of_mem_firstLine hc
    · have hall : (fixedLines.all fun l => l.toList.all fun c => !Text.isLineBreak c) = true := by
        decide
      simpa using List.all_eq_true.1 (List.all_eq_true.1 hall line hline) c hc
  rw [← printedText_lines, Text.textLines_printedText hlines]
  exact assemble_of_lineInstructions (lineInstruction?_lines hn m.mode)

/-! ## One turn of the loop -/

/-- The machine has the program for `n`, and has not sent out anything yet. -/
structure Loaded (n : Nat) (m : Machine) : Prop where
  program_eq : m.program = (program n).toArray
  labels_eq : m.labels = labelsOf (program n)
  size_eq : m.registers.size = 32
  output_eq : m.output = #[]
  console_eq : m.console = #[]

/-- What the machine holds after `k` turns of the loop, wherever it stands. -/
structure Turned (n k : Nat) (m : Machine) : Prop extends Loaded n m where
  counter_eq : m.registers.read 20 = Int32.ofInt (n - k)
  product_eq : m.registers.read 21 = Int32.ofInt (n.descFactorial k)
  one_eq : m.registers.read 22 = Int32.ofInt 1

namespace Loaded

variable {n : Nat} {m : Machine}

theorem of_load (hs : m.registers.size = 32) (ho : m.output = #[]) (hc : m.console = #[]) :
    Loaded n (m.load (program n)) := by
  -- for any program, so that no table of labels is computed here
  refine ⟨?_, ?_, ?_, ?_, ?_⟩ <;> generalize program n = p
  · rfl
  · rfl
  · exact hs
  · exact ho
  · exact hc

theorem slot_lt (h : Loaded n m) {slot : Nat} (hs : slot < 32) : slot < m.registers.size := by
  rw [h.size_eq]
  exact hs

/-- The registers do not matter, and neither does where the machine stands. -/
theorem write (h : Loaded n m) (pc : Int) (steps slot : Nat) (v : Int32) :
    Loaded n { m with pc, steps, registers := m.registers.write slot v } :=
  { h with size_eq := (Bank.size_write _ _ _).trans h.size_eq }

/-- The machine obeys the instruction at the address where it stands. -/
theorem step (h : Loaded n m) {a : Nat} {i : Instruction} {e : Effect} (hpc : m.pc = a)
    (hi : (program n)[a]? = some i) (he : EffectCase m.registers i e) :
    m.step = (.ok true, apply e { m with pc := m.pc + 1, steps := m.steps + 1 }) := by
  have hp : m.position = .at i := by
    rw [position_eq_at_iff, hpc, h.program_eq]
    exact ⟨Int.natCast_nonneg a, by simpa using hi⟩
  exact (StepCase.obeyed hp (effect_eq_ok_iff.2 he)).step_eq

end Loaded

theorem descFactorial_succ {n k : Nat} (hk : k < n) :
    (n.descFactorial (k + 1) : Int) = n.descFactorial k * (n - k) := by
  rw [Nat.descFactorial_succ, Nat.mul_comm, Int.natCast_mul, Int.ofNat_sub (Nat.le_of_lt hk)]

/-- The counter is seen to be zero after the last turn only, since it fits a register. -/
theorem ofInt_counter_eq_zero_iff {n k : Nat} (hn : n ≤ 2 ^ 31 - 1) (hk : k ≤ n) :
    Int32.ofInt (n - k) = 0 ↔ k = n := by
  constructor
  · intro h
    have hi := congrArg Int32.toInt h
    rw [Int32.toInt_ofInt_of_le (by omega) (by omega)] at hi
    have hz : (0 : Int32).toInt = 0 := rfl
    omega
  · intro h
    rw [h, Int.sub_self]
    rfl

namespace Turned

variable {n k : Nat} {m : Machine}

/-- Where the machine stands and how many steps it has made play no part. -/
theorem count (h : Turned n k m) (pc : Int) (steps : Nat) : Turned n k { m with pc, steps } :=
  { h with }

theorem multiply_subtract (h : Turned n k m) (hk : k < n) :
    let product := m.registers.write 21 (m.registers.read 21 * m.registers.read 20)
    Turned n (k + 1)
      { m with registers := product.write 20 (product.read 20 - product.read 22) } := by
  intro product
  have hproduct : ∀ slot, product.read slot =
      if slot = 21 then Int32.ofInt (n.descFactorial (k + 1)) else m.registers.read slot := by
    intro slot
    rw [Bank.read_write (h.slot_lt (by omega)), h.product_eq, h.counter_eq, ← Int32.ofInt_mul,
      ← descFactorial_succ hk]
  have hcounter : product.read 20 - product.read 22 = Int32.ofInt (n - (k + 1 : Nat)) := by
    rw [hproduct 20, hproduct 22, if_neg (by omega), if_neg (by omega), h.counter_eq, h.one_eq,
      ← Int32.ofInt_sub, Int.natCast_succ, Int.sub_sub]
  have hread : ∀ slot, (product.write 20 (product.read 20 - product.read 22)).read slot =
      if slot = 20 then Int32.ofInt (n - (k + 1 : Nat)) else product.read slot := by
    intro slot
    have hsize : product.size = m.registers.size := Bank.size_write _ _ _
    rw [Bank.read_write (by rw [hsize]; exact h.slot_lt (by omega)), hcounter]
  exact
    { h with
      size_eq := by simp [product, h.size_eq]
      counter_eq := by rw [hread, if_pos rfl]
      product_eq := by rw [hread, if_neg (by omega), hproduct, if_pos rfl]
      one_eq := by rw [hread, if_neg (by omega), hproduct, if_neg (by omega), h.one_eq] }

/-- From the start of the loop it takes three steps back there, or out of it after the last turn. -/
theorem turn (h : Turned n k m) (hn : n ≤ 2 ^ 31 - 1) (hk : k < n) (hpc : m.pc = 3) :
    ∃ m', Steps 3 m m' ∧ Turned n (k + 1) m' ∧ m'.pc = if k + 1 = n then 6 else 3 := by
  let product := m.registers.write 21 (m.registers.read 21 * m.registers.read 20)
  let counter := product.write 20 (product.read 20 - product.read 22)
  let m₁ : Machine := { m with pc := m.pc + 1, steps := m.steps + 1, registers := product }
  let m₂ : Machine := { m₁ with pc := m₁.pc + 1, steps := m₁.steps + 1, registers := counter }
  have h₁ : Loaded n m₁ := h.write _ _ _ _
  have h₂ : Turned n (k + 1) m₂ := (h.multiply_subtract hk).count _ _
  have hpc₁ : m₁.pc = (4 : Nat) := by simp [m₁, hpc]
  have hpc₂ : m₂.pc = (5 : Nat) := by simp [m₂, hpc₁]
  have he₁ : EffectCase m.registers ⟨"f3", .mul, [.int 21, .int 21, .int 20]⟩
      (.write 21 (m.registers.read 21 * m.registers.read 20)) :=
    .combined rfl rfl (h.slot_lt (by decide)) (h.slot_lt (by decide)) (h.slot_lt (by decide)) rfl
  have he₂ : EffectCase m₁.registers ⟨"f4", .sub, [.int 20, .int 20, .int 22]⟩
      (.write 20 (product.read 20 - product.read 22)) :=
    .combined rfl rfl (h₁.slot_lt (by decide)) (h₁.slot_lt (by decide)) (h₁.slot_lt (by decide)) rfl
  have s₁ : m.step = (.ok true, m₁) := h.step hpc rfl he₁
  have s₂ : m₁.step = (.ok true, m₂) := h₁.step hpc₁ rfl he₂
  by_cases hlast : k + 1 = n
  · -- the counter is zero, and the branch falls through
    let m₃ : Machine := { m₂ with pc := m₂.pc + 1, steps := m₂.steps + 1 }
    have hzero : m₂.registers.read 20 = 0 := by
      rw [h₂.counter_eq, ofInt_counter_eq_zero_iff hn (by omega)]
      exact hlast
    have he₃ : EffectCase m₂.registers ⟨"f5", .bnz, [.int 20, .word "f3"]⟩ .none :=
      .passed rfl rfl (h₂.slot_lt (by decide)) fun _ _ => hzero
    have s₃ : m₂.step = (.ok true, m₃) := h₂.step hpc₂ rfl he₃
    refine ⟨m₃, .cons s₁ (.cons s₂ (.single s₃)), h₂.count _ _, ?_⟩
    simp [m₃, hpc₂, hlast]
  · -- the branch leads back to the start of the loop
    let m₃ : Machine := { m₂ with pc := 3, steps := m₂.steps + 1 }
    have hne : m₂.registers.read 20 ≠ 0 := by
      rw [h₂.counter_eq, ne_eq, ofInt_counter_eq_zero_iff hn (by omega)]
      exact hlast
    have he₃ : EffectCase m₂.registers ⟨"f5", .bnz, [.int 20, .word "f3"]⟩ (.jump "f3") :=
      .gone rfl rfl (h₂.slot_lt (by decide)) hne
    have htarget : m₂.labels.address? "f3" = some 3 := by
      rw [h₂.labels_eq, address?_labelsOf]
      simp [program, List.findIdx?_cons]
    have hjump : apply (.jump "f3") { m₂ with pc := m₂.pc + 1, steps := m₂.steps + 1 } = m₃ := by
      simp only [apply, Machine.jump, htarget]
      rfl
    have s₃ : m₂.step = (.ok true, m₃) := by
      rw [← hjump]
      exact h₂.step hpc₂ rfl he₃
    refine ⟨m₃, .cons s₁ (.cons s₂ (.single s₃)), h₂.count _ _, ?_⟩
    rw [if_neg hlast]

/-- The whole loop, by induction on the number of turns that are left. -/
theorem loop (hn : n ≤ 2 ^ 31 - 1) :
    ∀ left k (m : Machine), Turned n k m → k + (left + 1) = n → m.pc = 3 →
      ∃ m', Steps (3 * (left + 1)) m m' ∧ Turned n n m' ∧ m'.pc = 6 := by
  intro left
  induction left with
  | zero =>
    intro k m h hk hpc
    obtain ⟨m₁, hs, h₁, hpc₁⟩ := h.turn hn (by omega) hpc
    have hlast : k + 1 = n := hk
    rw [hlast] at h₁
    rw [if_pos hlast] at hpc₁
    exact ⟨m₁, hs, h₁, hpc₁⟩
  | succ left ih =>
    intro k m h hk hpc
    obtain ⟨m₁, hs, h₁, hpc₁⟩ := h.turn hn (by omega) hpc
    rw [if_neg (by omega)] at hpc₁
    obtain ⟨m', hs', h', hpc'⟩ := ih (k + 1) m₁ h₁ (by omega) hpc₁
    have hcount : 3 * (left + 1 + 1) = 3 + 3 * (left + 1) := by omega
    rw [hcount]
    exact ⟨m', hs.trans hs', h', hpc'⟩

end Turned

/-! ## The whole run -/

/-- The three loads before the loop. -/
theorem Loaded.start {n : Nat} {m : Machine} (h : Loaded n m) (hpc : m.pc = 0) :
    ∃ m', Steps 3 m m' ∧ Turned n 0 m' ∧ m'.pc = 3 := by
  let m₁ : Machine :=
    { m with pc := m.pc + 1, steps := m.steps + 1,
             registers := m.registers.write 20 (Int32.ofInt n) }
  let m₂ : Machine :=
    { m₁ with pc := m₁.pc + 1, steps := m₁.steps + 1,
              registers := m₁.registers.write 21 (Int32.ofInt 1) }
  let m₃ : Machine :=
    { m₂ with pc := m₂.pc + 1, steps := m₂.steps + 1,
              registers := m₂.registers.write 22 (Int32.ofInt 1) }
  have h₁ : Loaded n m₁ := h.write _ _ _ _
  have h₂ : Loaded n m₂ := h₁.write _ _ _ _
  have h₃ : Loaded n m₃ := h₂.write _ _ _ _
  have h20 : 20 < m.registers.size := h.slot_lt (by omega)
  have h21 : 21 < m₁.registers.size := h₁.slot_lt (by omega)
  have h22 : 22 < m₂.registers.size := h₂.slot_lt (by omega)
  have hpc₁ : m₁.pc = (1 : Nat) := by simp [m₁, hpc]
  have hpc₂ : m₂.pc = (2 : Nat) := by simp [m₂, hpc₁]
  have s₁ : m.step = (.ok true, m₁) := h.step (a := 0) hpc rfl (.loaded rfl rfl h20)
  have s₂ : m₁.step = (.ok true, m₂) := h₁.step hpc₁ rfl (.loaded rfl rfl h21)
  have s₃ : m₂.step = (.ok true, m₃) := h₂.step hpc₂ rfl (.loaded rfl rfl h22)
  have hread : ∀ slot, m₃.registers.read slot = if slot = 22 then Int32.ofInt 1
      else if slot = 21 then Int32.ofInt 1
      else if slot = 20 then Int32.ofInt n else m.registers.read slot := by
    intro slot
    rw [Bank.read_write h22, Bank.read_write h21, Bank.read_write h20]
  refine ⟨m₃, .cons s₁ (.cons s₂ (.single s₃)), ?_, by simp [m₃, hpc₂]⟩
  exact
    { h₃ with
      counter_eq := by rw [hread]; simp
      product_eq := by rw [hread]; simp
      one_eq := by rw [hread]; simp }

/-- What a run of the program for `n` leaves behind. -/
structure Computed (n : Nat) (m : Machine) : Prop where
  halted : m.position = .pastEnd
  output_eq : m.snapshot.output = [wrap n.factorial]
  console_eq : m.console = #[Numeral.text (wrap n.factorial)]
  counter_eq : m.registers.get 20 = .ok 0
  pc_eq : m.pc = 7

/-- After the last turn the product is sent out. -/
theorem Turned.finish {n : Nat} {m : Machine} (h : Turned n n m) (hpc : m.pc = 6) :
    ∃ m', m.step = (.ok true, m') ∧ Computed n m' := by
  let v := m.registers.read 21
  let m' : Machine :=
    { m with pc := m.pc + 1, steps := m.steps + 1, output := m.output.push v,
             console := m.console.push (Numeral.text v.toInt) }
  have he : EffectCase m.registers ⟨"f6", .out, [.int 21]⟩ (.emit v) :=
    .sent rfl rfl (h.slot_lt (by omega))
  have s : m.step = (.ok true, m') := h.step (a := 6) hpc rfl he
  have hv : v.toInt = wrap n.factorial := by
    simp only [v, h.product_eq, Nat.descFactorial_self, wrap]
  have hcounter : m.registers.get (20 : Nat) = .ok 0 := by
    rw [Bank.get_of_lt (h.slot_lt (by omega)), h.counter_eq, Int.sub_self]
    rfl
  refine ⟨m', s, ?_⟩
  exact
    { halted := by simp [position_eq_pastEnd_iff, m', h.program_eq, hpc, program]
      output_eq := by simp [m', snapshot, h.output_eq, hv]
      console_eq := by simp [m', h.console_eq, hv]
      counter_eq := hcounter
      pc_eq := by simp [m', hpc] }

theorem Loaded.run {n : Nat} {m : Machine} (h : Loaded n m) (hpc : m.pc = 0) (h₁ : 1 ≤ n)
    (h₂ : n ≤ 2 ^ 31 - 1) : ∃ m', Steps (3 * n + 4) m m' ∧ Computed n m' := by
  obtain ⟨m₁, hs₁, ht₁, hpc₁⟩ := h.start hpc
  obtain ⟨m₂, hs₂, ht₂, hpc₂⟩ := Turned.loop h₂ (n - 1) 0 m₁ ht₁ (by omega) hpc₁
  obtain ⟨m', hs', hcomputed⟩ := ht₂.finish hpc₂
  have hcount : 3 * n + 4 = 3 + 3 * (n - 1 + 1) + 1 := by omega
  rw [hcount]
  exact ⟨m', (hs₁.trans hs₂).trans (.single hs'), hcomputed⟩

/-- The machine with default registers, before it is given a program. -/
def fresh (mode : Mode) : Machine := { registers := .zeros 32, mode }

theorem runText_eq_finish {n : Nat} (hn : n ≤ 2 ^ 31 - 1) (mode : Mode) (options : RunOptions)
    (rounds : Nat) :
    Setup.runText { mode, options } rounds (text n) =
      Setup.finish { mode, options } rounds ((fresh mode).load (program n)) := by
  have hbuild : Setup.machine { mode, options } = .ok (fresh mode) := rfl
  simp only [Setup.runText, hbuild, assemble_text hn]

/-- A limit so far below zero that it cannot be shown is used up before the first instruction. -/
theorem runText_of_far_limit {n : Nat} (hn : n ≤ 2 ^ 31 - 1) (mode : Mode) {limit : Int}
    (hneg : limit < 0) (hlong : ¬ Numeral.Short limit) {rounds : Nat} (hrounds : 0 < rounds) :
    Setup.runText { mode, options := { limit := some limit } } rounds (text n) =
      some ⟨.error (.unshowable .tooManyDigits), []⟩ := by
  obtain ⟨rounds, rfl⟩ := Nat.exists_eq_succ_of_ne_zero (Nat.ne_of_gt hrounds)
  have hfirst : ((fresh mode).load (program n)).position =
      .at ⟨"f0", .lin, [.int 20, .int n]⟩ := rfl
  rw [runText_eq_finish hn, Setup.finish, execute_of_far_limit hfirst hneg hlong]
  rfl

/-- The factorial program, with default registers and in either mode, prints the wrapped factorial
and halts after exactly `3 * n + 4` steps with a counter of zero. A budget makes it fail for having
used it up exactly when it is smaller, unless it is so far below zero that the failure cannot be told;
then there is another failure. A budget that is not smaller has no influence. -/
theorem factorial_loop_correct {n : Nat} (h₁ : 1 ≤ n) (h₂ : n ≤ 2 ^ 31 - 1) (mode : Mode) :
    ∃ m : Machine, m.snapshot.output = [wrap n.factorial] ∧ m.registers.get 20 = .ok 0 ∧
      m.pc = 7 ∧ m.steps = 3 * n + 4 ∧
      ∀ rounds, 3 * n + 4 < rounds →
        Setup.runText { mode } rounds (text n) =
          some ⟨.ok m, [Numeral.text (wrap n.factorial)]⟩ ∧
        ∀ k : Int, ∃ report,
          Setup.runText { mode, options := { limit := some k } } rounds (text n) = some report ∧
          ((∃ pc i, report.result = .error (.machine (.stepLimit k pc i))) ↔
            k < 3 * n + 4 ∧ (k < 0 → Numeral.Short k)) ∧
          (k < 0 → ¬ Numeral.Short k →
            report = ⟨.error (.unshowable .tooManyDigits), []⟩) ∧
          (3 * n + 4 ≤ k → report = ⟨.ok m, [Numeral.text (wrap n.factorial)]⟩) := by
  have hloaded : Loaded n ((fresh mode).load (program n)) :=
    .of_load (Bank.size_zeros 32) rfl rfl
  obtain ⟨m, hs, hm⟩ := hloaded.run rfl h₁ h₂
  have hsteps : m.steps = 3 * n + 4 := by
    rw [hs.steps_eq]
    exact Nat.zero_add _
  refine ⟨m, hm.output_eq, hm.counter_eq, hm.pc_eq, hsteps, ?_⟩
  intro rounds hrounds
  -- the run with any budget that suffices
  have hfull : ∀ limit : Option Int, (∀ k, limit = some k → (3 * n + 4 : Nat) ≤ k) →
      Setup.runText { mode, options := { limit } } rounds (text n) =
        some ⟨.ok m, [Numeral.text (wrap n.factorial)]⟩ := by
    intro limit hlimit
    rw [runText_eq_finish h₂, Setup.finish, execute_of_halting hs hm.halted hlimit hrounds]
    simp [Except.map, hm.console_eq]
  have hunlimited : ∀ k, (none : Option Int) = some k → (3 * n + 4 : Nat) ≤ k := by
    intro k hk
    cases hk
  refine ⟨hfull none hunlimited, ?_⟩
  intro k
  by_cases hk : k < 3 * n + 4
  · by_cases hshort : k < 0 → Numeral.Short k
    · obtain ⟨pc, i, mj, hx⟩ := execute_of_small_budget (n := k) hs (by omega) hrounds
      rw [Failure.ofMachine_of_sayable (e := .stepLimit k pc i) hshort] at hx
      refine ⟨⟨.error (.machine (.stepLimit k pc i)), mj.console.toList⟩, ?_, ?_, ?_, ?_⟩
      · rw [runText_eq_finish h₂, Setup.finish, hx]
        rfl
      · exact iff_of_true ⟨pc, i, rfl⟩ ⟨hk, hshort⟩
      · intro hneg hlong
        exact absurd (hshort hneg) hlong
      · intro hle
        omega
    · obtain ⟨hneg, hlong⟩ := Classical.not_imp.1 hshort
      refine ⟨_, runText_of_far_limit h₂ mode hneg hlong (by omega), ?_, fun _ _ => rfl, ?_⟩
      · refine iff_of_false ?_ fun h => hshort h.2
        rintro ⟨pc, i, hi⟩
        cases hi
      · intro hle
        omega
  · refine ⟨_, hfull (some k) ?_, iff_of_false ?_ fun h => hk h.1, ?_, fun _ => rfl⟩
    · intro k' hk'
      cases hk'
      omega
    · rintro ⟨pc, i, hi⟩
      cases hi
    · intro hneg
      omega

/-- The factorial of thirteen is the first one that does not fit a register. -/
theorem factorial_loop_correct_thirteen :
    ∃ m : Machine, m.snapshot.output = [1932053504] ∧ m.pc = 7 ∧ m.steps = 43 ∧
      Setup.runText {} 44 (text 13) = some ⟨.ok m, ["1932053504"]⟩ ∧
      ∃ report,
        Setup.runText { options := { limit := some 42 } } 44 (text 13) = some report ∧
        ∃ pc i, report.result = .error (.machine (.stepLimit 42 pc i)) := by
  have hvalue : wrap (Nat.factorial 13) = 1932053504 := by decide +kernel
  have hshown : Numeral.text 1932053504 = "1932053504" := by decide +kernel
  obtain ⟨m, houtput, -, hpc, hsteps, hrun⟩ :=
    factorial_loop_correct (n := 13) (by decide) (by decide) .lenient
  obtain ⟨hfull, hlimited⟩ := hrun 44 (by decide)
  obtain ⟨report, hreport, hspent, -⟩ := hlimited 42
  rw [hvalue] at houtput hfull
  rw [hshown] at hfull
  exact ⟨m, houtput, hpc, hsteps, hfull, report, hreport, hspent.2 ⟨by decide, nofun⟩⟩

/-- A budget may be smaller than the number of steps without being reported as used up. -/
theorem far_budget_is_not_reported :
    let limit : Int := -Numeral.leastLong
    limit < 3 * (1 : Nat) + 4 ∧ ∀ rounds, 0 < rounds → ∃ report,
      Setup.runText { options := { limit := some limit } } rounds (text 1) = some report ∧
        ¬ ∃ pc i, report.result = .error (.machine (.stepLimit limit pc i)) := by
  intro limit
  have hneg : limit < 0 := Int.neg_neg_of_pos Numeral.leastLong_pos
  refine ⟨by omega, fun rounds hrounds => ?_⟩
  have hrun := runText_of_far_limit (n := 1) (by decide) .lenient hneg
    Numeral.not_short_neg_leastLong hrounds
  refine ⟨_, hrun, ?_⟩
  rintro ⟨pc, i, hi⟩
  cases hi

end Factorial
end SimpleMachine
