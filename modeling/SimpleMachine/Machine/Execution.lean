import SimpleMachine.Machine.Step

/-!
# SimpleMachine.Machine.Execution

Executing a program until it ends.

- `RunOptions`: whether every instruction is shown before it is obeyed, and how many instructions
  may be executed.
- `Machine.turn`: one round of an execution; it either stops or goes on with the next state.
- `Machine.runFor`: at most a given number of rounds.
- `Machine.execute`: an execution with a budget that starts now. The answer is `none` when the
  given number of rounds is not enough; more rounds never change another answer.

In a round the end of the program is looked for first, then a counter before the program, then the
budget; only then the instruction is shown and obeyed.
-/

namespace SimpleMachine

structure RunOptions where
  trace : Bool := false
  /-- How many instructions may be executed; any integer. -/
  limit : Option Int := none
  deriving DecidableEq, Repr, Inhabited

inductive Turn where
  | stop (result : Except Failure Unit) (m : Machine)
  | next (m : Machine)

namespace Machine

def traceLines (i : Instruction) (m : Machine) : Except ShowError (Array String) :=
  i.shown.map fun shown =>
    #["[PC=" ++ Numeral.text m.pc ++ "] EXEC: " ++ shown, "  REGISTERS: " ++ m.registers.shown]

/-- One round of an execution that began after the given number of steps. -/
def turn (o : RunOptions) (start : Nat) (m : Machine) : Turn :=
  match m.position with
  | .pastEnd => .stop (.ok ()) m
  | .beforeStart => .stop (.error (.ofMachine (.counterOutOfRange m.pc))) m
  | .at i =>
    match o.limit.filter fun n => n ≤ (m.steps : Int) - start with
    | some n => .stop (.error (.ofMachine (.stepLimit n m.pc i))) m
    | none =>
      match if o.trace then m.traceLines i else .ok #[] with
      | .error e => .stop (.error (.unshowable e)) m
      | .ok lines =>
        match (m.print lines).obey i with
        | (.error e, m') => .stop (.error (.ofMachine e)) m'
        | (.ok (), m') => .next m'

def runFor (o : RunOptions) (start : Nat) :
    Nat → Machine → Option (Except Failure Unit × Machine)
  | 0, _ => none
  | rounds + 1, m =>
    match m.turn o start with
    | .stop result m' => some (result, m')
    | .next m' => runFor o start rounds m'

/-- An execution from the present state, if it ends within the given number of rounds. -/
def execute (o : RunOptions) (rounds : Nat) (m : Machine) :
    Option (Except Failure Unit × Machine) :=
  runFor o m.steps rounds m

theorem runFor_mono {o : RunOptions} {start n k : Nat} {m : Machine}
    {r : Except Failure Unit × Machine} (h : runFor o start n m = some r) (hk : n ≤ k) :
    runFor o start k m = some r := by
  induction n generalizing k m with
  | zero => simp [runFor] at h
  | succ n ih =>
    obtain ⟨k, rfl⟩ : ∃ j, k = j + 1 := ⟨k - 1, by omega⟩
    unfold runFor at h ⊢
    split at h
    · simpa using h
    · exact ih h (by omega)

end Machine
end SimpleMachine
