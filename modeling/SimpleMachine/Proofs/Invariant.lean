import SimpleMachine.Machine.Session
import SimpleMachine.Proofs.Atomicity
import SimpleMachine.Proofs.Transition

/-!
# SimpleMachine.Proofs.Invariant

What every session with a machine keeps.

* `Session m calls m'`: the calls are made on `m` one after the other, each on the state in which the
  one before left the machine, and end in `m'`. Calls may fail.
* `Call.handled c m`: the instructions whose handlers run to their end during the call.
* `Advances handled sent printed m m'`: what may happen between two states. It holds of the change
  of a register or of the counter, of an effect, of a round (`advances_next`, `advances_stop`),
  hence of a run (`advances_runFor`) and of every call (`advances_call`).
* `session_invariant`: the size of the bank, the range of the values, the growth of the output and
  of the counter of steps, and what is printed.
-/

namespace SimpleMachine

/-! ## Lines of the trace -/

/-- A line that shows the state before an instruction. -/
def isTraceLine (line : String) : Bool :=
  "[PC=".toList.isPrefixOf line.toList || "  REGISTERS: ".toList.isPrefixOf line.toList

/-- No number is taken for a line of the trace. -/
theorem isTraceLine_text (v : Int) : isTraceLine (Numeral.text v) = false := by
  have key : ∀ (c : Char) (p : List Char), c.isDigit = false → c ≠ '-' →
      (c :: p).isPrefixOf (Numeral.text v).toList = false := by
    intro c p hc hm
    rw [Numeral.text, String.toList_ofList]
    split
    · simp [List.isPrefixOf, hm]
    · cases hd : Nat.toDigits 10 v.natAbs with
      | nil => rfl
      | cons d ds =>
        have hdigit : d.isDigit = true :=
          Nat.isDigit_of_mem_toDigits (b := 10) (n := v.natAbs) (by decide) (by decide) (by simp [hd])
        have hne : c ≠ d := by rintro rfl; rw [hc] at hdigit; cases hdigit
        simp [List.isPrefixOf, hne]
  have h₁ := key '[' ['P', 'C', '='] (by decide) (by decide)
  have h₂ := key ' ' " REGISTERS: ".toList (by decide) (by decide)
  rw [isTraceLine, show "[PC=".toList = '[' :: ['P', 'C', '='] by rfl, h₁,
    show "  REGISTERS: ".toList = ' ' :: " REGISTERS: ".toList by rfl, h₂]
  rfl

theorem isTraceLine_of_mem_traceLines {m : Machine} {i : Instruction} {lines : Array String}
    {line : String} (h : m.traceLines i = .ok lines) (hl : line ∈ lines.toList) :
    isTraceLine line = true := by
  cases hs : i.shown with
  | error e => simp [Machine.traceLines, hs, Except.map] at h
  | ok shown =>
    simp only [Machine.traceLines, hs, Except.map, Except.ok.injEq] at h
    subst h
    simp only [List.mem_cons, List.not_mem_nil, or_false] at hl
    rcases hl with rfl | rfl
    · simp [isTraceLine, String.toList_append, List.append_assoc]
    · simp [isTraceLine, String.toList_append]

/-- The lines in which values are printed. -/
def decimals (sent : List Int32) : List String := sent.map fun v => Numeral.text v.toInt

theorem decimals_append (s₁ s₂ : List Int32) : decimals (s₁ ++ s₂) = decimals s₁ ++ decimals s₂ :=
  List.map_append

theorem filter_decimals (sent : List Int32) :
    (decimals sent).filter (fun line => !isTraceLine line) = decimals sent := by
  rw [List.filter_eq_self]
  intro line hl
  obtain ⟨v, -, rfl⟩ := List.mem_map.1 hl
  rw [isTraceLine_text]; rfl

/-! ## What may happen between two states -/

/-- The values that an effect sends out. -/
def Effect.sent : Effect → List Int32
  | .emit v => [v]
  | _ => []

namespace Machine

structure Advances (traced : Bool) (handled : List Instruction) (sent : List Int32)
    (printed : List String) (m m' : Machine) : Prop where
  size_eq : m'.registers.size = m.registers.size
  steps_eq : m'.steps = m.steps + handled.length
  output_eq : m'.output.toList = m.output.toList ++ sent
  console_eq : m'.console.toList = m.console.toList ++ printed
  filter_eq : printed.filter (fun line => !isTraceLine line) = decimals sent
  untraced : traced = false → printed = decimals sent

namespace Advances

variable {traced : Bool} {h₁ h₂ : List Instruction} {s₁ s₂ : List Int32} {p₁ p₂ : List String}
  {m m₁ m₂ : Machine}

theorem trans (a : Advances traced h₁ s₁ p₁ m m₁) (b : Advances traced h₂ s₂ p₂ m₁ m₂) :
    Advances traced (h₁ ++ h₂) (s₁ ++ s₂) (p₁ ++ p₂) m m₂ where
  size_eq := by rw [b.size_eq, a.size_eq]
  steps_eq := by rw [b.steps_eq, a.steps_eq, List.length_append]; omega
  output_eq := by rw [b.output_eq, a.output_eq, List.append_assoc]
  console_eq := by rw [b.console_eq, a.console_eq, List.append_assoc]
  filter_eq := by rw [List.filter_append, a.filter_eq, b.filter_eq, decimals_append]
  untraced ht := by rw [a.untraced ht, b.untraced ht, decimals_append]

/-- Nothing happens to the bank's size, the output, the steps and the console. -/
theorem quiet (hr : m₁.registers.size = m.registers.size) (hs : m₁.steps = m.steps)
    (ho : m₁.output = m.output) (hc : m₁.console = m.console) :
    Advances traced [] [] [] m m₁ where
  size_eq := hr
  steps_eq := hs
  output_eq := by rw [ho, List.append_nil]
  console_eq := by rw [hc, List.append_nil]
  filter_eq := rfl
  untraced _ := rfl

theorem refl : Advances traced [] [] [] m m := quiet rfl rfl rfl rfl

/-- The instruction at the counter is counted before its effect is made. -/
theorem count (i : Instruction) (pc : Int) :
    Advances traced [i] [] [] m { m with pc, steps := m.steps + 1 } where
  size_eq := rfl
  steps_eq := rfl
  output_eq := (List.append_nil _).symm
  console_eq := (List.append_nil _).symm
  filter_eq := rfl
  untraced _ := rfl

theorem apply (e : Effect) (m : Machine) :
    Advances traced [] e.sent (decimals e.sent) m (Machine.apply e m) where
  size_eq := size_registers_apply e m
  steps_eq := steps_apply e m
  output_eq := by
    cases e with
    | emit v => simp [Machine.apply, Effect.sent]
    | jump name => obtain ⟨pc, h⟩ := jump_eq name m; simp [Machine.apply, h, Effect.sent]
    | _ => simp [Machine.apply, Effect.sent]
  console_eq := by
    cases e with
    | emit v => simp [Machine.apply, Effect.sent, decimals]
    | jump name => obtain ⟨pc, h⟩ := jump_eq name m; simp [Machine.apply, h, Effect.sent, decimals]
    | _ => simp [Machine.apply, Effect.sent, decimals]
  filter_eq := filter_decimals e.sent
  untraced _ := rfl

theorem announce {o : RunOptions} {i : Instruction} {lines : Array String}
    (h : m.announcement o i = .ok lines) :
    Advances o.trace [] [] lines.toList m (m.print lines) where
  size_eq := rfl
  steps_eq := rfl
  output_eq := (List.append_nil _).symm
  console_eq := by simp [print]
  filter_eq := by
    unfold announcement at h
    split at h
    · rw [List.filter_eq_nil_iff.2 fun line hl => by simp [isTraceLine_of_mem_traceLines h hl]]
      rfl
    · cases h; rfl
  untraced := by
    intro ht
    rw [announcement, ht] at h
    cases h; rfl

end Advances

/-! ## Rounds and runs -/

/-- The instruction at the counter, if its handler runs to its end. -/
def able? (m : Machine) : Option Instruction :=
  match m.position with
  | .at i =>
    match i.effect m.registers with
    | .ok _ => some i
    | .error _ => none
  | _ => none

/-- The instructions whose handlers run to their end in at most the given number of rounds. -/
def handledFor (o : RunOptions) (start : Nat) : Nat → Machine → List Instruction
  | 0, _ => []
  | rounds + 1, m =>
    match m.turn o start with
    | .stop _ _ => []
    | .next m' => m.able?.toList ++ handledFor o start rounds m'

theorem able?_of_ok {m : Machine} {i : Instruction} {e : Effect} (hp : m.position = .at i)
    (he : i.effect m.registers = .ok e) : m.able? = some i := by
  simp [able?, hp, he]

theorem advances_next {o : RunOptions} {start : Nat} {m m' : Machine}
    (h : m.turn o start = .next m') :
    ∃ sent printed, Advances o.trace m.able?.toList sent printed m m' := by
  cases turn_eq_iff.1 h with
  | @obeyed i lines e hp _ hl he =>
    rw [able?_of_ok hp he]
    exact ⟨_, _, (((Advances.announce hl).trans (.count i (m.pc + 1))).trans (.apply e _))⟩

theorem advances_stop {o : RunOptions} {start : Nat} {m m' : Machine} {r : Except Failure Unit}
    (h : m.turn o start = .stop r m') :
    ∃ printed, Advances o.trace [] [] printed m m' := by
  cases turn_eq_iff.1 h with
  | finished _ => exact ⟨_, .refl⟩
  | astray _ => exact ⟨_, .refl⟩
  | spent _ _ _ => exact ⟨_, .refl⟩
  | unshowable _ _ _ => exact ⟨_, .refl⟩
  | faulted _ _ hl _ => exact ⟨_, (Advances.announce hl).trans (.quiet rfl rfl rfl rfl)⟩

theorem advances_runFor {o : RunOptions} {start rounds : Nat} {m m' : Machine}
    {r : Except Failure Unit} (h : runFor o start rounds m = some (r, m')) :
    ∃ sent printed, Advances o.trace (handledFor o start rounds m) sent printed m m' := by
  induction rounds generalizing m with
  | zero => cases h
  | succ rounds ih =>
    cases ht : m.turn o start with
    | stop r₁ m₁ =>
      simp only [runFor, ht, Option.some.injEq, Prod.mk.injEq] at h
      obtain ⟨rfl, rfl⟩ := h
      obtain ⟨printed, a⟩ := advances_stop ht
      exact ⟨[], printed, by simpa only [handledFor, ht] using a⟩
    | next m₁ =>
      simp only [runFor, ht] at h
      obtain ⟨s₁, p₁, a⟩ := advances_next ht
      obtain ⟨s₂, p₂, b⟩ := ih h
      exact ⟨_, _, by simpa only [handledFor, ht] using a.trans b⟩

/-! ## Calls and sessions -/

/-- A call on a machine: what is asked, the files there are then, and the rounds there is patience
for. -/
structure Call where
  files : FileTree
  rounds : Nat
  request : Request

namespace Call

def perform (c : Call) (m : Machine) : Option Performed := m.perform c.files c.rounds c.request

def handled (c : Call) (m : Machine) : List Instruction :=
  match c.request with
  | .step => m.able?.toList
  | .execute o => handledFor o m.steps c.rounds m
  | _ => []

/-- Whether the call prints a trace. -/
def traces (c : Call) : Bool :=
  match c.request with
  | .execute o => o.trace
  | _ => false

end Call

/-- The calls are made one after the other; one that does not come to an end ends no session. -/
inductive Session : Machine → List Call → Machine → Prop where
  | nil {m : Machine} : Session m [] m
  | cons {m m' : Machine} {c : Call} {p : Performed} {calls : List Call} :
      c.perform m = some p → Session p.machine calls m' → Session m (c :: calls) m'

theorem advances_step (m : Machine) :
    ∃ sent printed, Advances false m.able?.toList sent printed m m.step.2 := by
  cases hs : m.step with
  | mk r m' =>
    cases step_eq_iff.1 hs with
    | halted hp => exact ⟨_, _, by simpa [able?, hp] using Advances.refl⟩
    | astray hp => exact ⟨_, _, by simpa [able?, hp] using Advances.refl⟩
    | faulted hp he =>
      rw [show m.able? = none by simp [able?, hp, he]]
      exact ⟨_, _, .quiet rfl rfl rfl rfl⟩
    | @obeyed i e hp he =>
      rw [able?_of_ok hp he]
      exact ⟨_, _, (Advances.count i (m.pc + 1)).trans (.apply e _)⟩

/-- Giving the machine a program happens without a trace in the rest of its state. -/
theorem Advances.of_install {traced : Bool} {m m' : Machine} (h : ∃ l, m' = m.install l) :
    Advances traced [] [] [] m m' := by
  obtain ⟨l, rfl⟩ := h
  exact .quiet rfl rfl rfl rfl

theorem advances_call {c : Call} {m : Machine} {p : Performed} (h : c.perform m = some p) :
    ∃ sent printed, Advances c.traces (c.handled m) sent printed m p.machine := by
  obtain ⟨files, rounds, request⟩ := c
  cases request with
  | assemble lines => cases h; exact ⟨_, _, .of_install (assemble_touches lines m)⟩
  | read path encoding => cases h; exact ⟨_, _, .of_install (read_touches files path encoding m)⟩
  | load program => cases h; exact ⟨_, _, .of_install ⟨_, rfl⟩⟩
  | step => cases h; exact advances_step m
  | execute o =>
    obtain ⟨⟨r, m'⟩, hx, rfl⟩ := Option.map_eq_some_iff.1 h
    exact advances_runFor hx
  | jump name =>
    cases h
    obtain ⟨pc, hj⟩ := jump_eq name m
    exact ⟨_, _, by show Advances _ _ _ _ m (m.jump name); rw [hj]; exact .quiet rfl rfl rfl rfl⟩
  | setCounter pc => cases h; exact ⟨_, _, .quiet rfl rfl rfl rfl⟩
  | setRegister index v =>
    cases hr : m.setRegister index v with
    | error f =>
      simp only [Call.perform, perform, hr, Option.some.injEq] at h
      subst h; exact ⟨_, _, .refl⟩
    | ok m' =>
      simp only [Call.perform, perform, hr, Option.some.injEq] at h
      subst h
      obtain ⟨slot, rfl⟩ := setRegister_eq_ok hr
      exact ⟨_, _, .quiet (Bank.size_write m.registers slot _) rfl rfl rfl⟩
  | clearRegisters => cases h; exact ⟨_, _, .quiet (Bank.size_clear m.registers) rfl rfl rfl⟩
  | addLabel name address => cases h; exact ⟨_, _, .quiet rfl rfl rfl rfl⟩
  | resetLabels => cases h; exact ⟨_, _, .quiet rfl rfl rfl rfl⟩

theorem Session.size_eq {calls : List Call} {m m' : Machine} (h : Session m calls m') :
    m'.registers.size = m.registers.size := by
  induction h with
  | nil => rfl
  | cons hc _ ih =>
    obtain ⟨_, _, a⟩ := advances_call hc
    rw [ih, a.size_eq]

theorem range_toInt (v : Int32) : minInt ≤ v.toInt ∧ v.toInt ≤ maxInt := by
  have hlo := v.le_toInt
  have hhi := v.toInt_lt
  unfold minInt maxInt
  omega

/-- After any calls on a machine of `n` registers, whether they succeed or fail, there are `n`
registers, and these and the output hold 32-bit integers. Any further call appends to the output and
counts the instructions that it has completed; apart from a trace, it prints what it appends. -/
theorem session_invariant {n : Nat} {pc : Int} {mode : Source.Mode} {calls : List Call}
    {m : Machine} (h : Session { pc, registers := .zeros n, mode } calls m) :
    m.snapshot.registers.length = n ∧
    (∀ v ∈ m.snapshot.registers ++ m.snapshot.output, minInt ≤ v ∧ v ≤ maxInt) ∧
    ∀ (c : Call) (p : Performed), c.perform m = some p → ∃ sent printed,
      p.machine.snapshot.output = m.snapshot.output ++ sent ∧
      p.machine.steps = m.steps + (c.handled m).length ∧
      p.machine.console.toList = m.console.toList ++ printed ∧
      printed.filter (fun line => !isTraceLine line) = sent.map Numeral.text ∧
      (c.traces = false → printed = sent.map Numeral.text) := by
  refine ⟨?_, ?_, fun c p hc => ?_⟩
  · rw [snapshot, Bank.length_toList, h.size_eq, Bank.size_zeros]
  · intro v hv
    simp only [snapshot, Bank.toList, ← List.map_append, List.mem_map] at hv
    obtain ⟨w, -, rfl⟩ := hv
    exact range_toInt w
  · obtain ⟨sent, printed, a⟩ := advances_call hc
    have hd : decimals sent = (sent.map Int32.toInt).map Numeral.text := by simp [decimals]
    refine ⟨sent.map Int32.toInt, printed, ?_, a.steps_eq, a.console_eq, ?_, ?_⟩
    · simp only [snapshot, a.output_eq, List.map_append]
    · rw [a.filter_eq, hd]
    · rw [← hd]; exact a.untraced

/-- A traced run that wraps what it loads, sends it out, and fails at its third instruction. -/
theorem session_invariant_traced_fault :
    let program : List Instruction :=
      [⟨"a", .lin, [.int 0, .int 2147483648]⟩, ⟨"b", .out, [.int 0]⟩, ⟨"c", .out, [.int 1]⟩]
    let m : Machine := ({ registers := .zeros 1 } : Machine).load program
    let c : Call := ⟨{}, 9, .execute { trace := true }⟩
    Session { registers := .zeros 1 } [⟨{}, 0, .load program⟩] m ∧
      m.snapshot.registers.length = 1 ∧
      ∃ p printed, c.perform m = some p ∧ p.machine.snapshot.output = [-2147483648] ∧
        p.machine.steps = 2 ∧ p.machine.console.toList = printed ∧
        (printed.filter fun line => !isTraceLine line) = ["-2147483648"] := by
  intro program m c
  have hs : Session { registers := .zeros 1 } [⟨{}, 0, .load program⟩] m := .cons rfl .nil
  obtain ⟨hsize, -, hcall⟩ := session_invariant hs
  obtain ⟨p, hp⟩ : ∃ p, c.perform m = some p := ⟨_, rfl⟩
  obtain ⟨sent, printed, ho, hsteps, hcons, hf, -⟩ := hcall c p hp
  have hout : p.machine.snapshot.output = [-2147483648] := by cases hp; decide
  rw [hout] at ho
  obtain rfl : [-2147483648] = sent := ho
  refine ⟨hs, hsize, p, printed, hp, hout, ?_, hcons, ?_⟩
  · rw [hsteps]; decide
  · rw [hf]; decide

end Machine
end SimpleMachine
