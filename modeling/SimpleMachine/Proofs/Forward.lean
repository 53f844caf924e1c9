import SimpleMachine.Proofs.Budget
import SimpleMachine.Proofs.Effects
import SimpleMachine.Proofs.Invariant
import SimpleMachine.Proofs.Simulation

/-!
# SimpleMachine.Proofs.Forward

A program whose branches go forward ends within its length.

* `Forward m`: a branch of the program leads to a later address, if its label is known at all.
* `Forward.next`: then every round moves the counter forward, and so the room between the counter
  and the end of the program shrinks.
* `Forward.exists_runFor`: hence one round more than there is room is enough for an execution.
* `Forward.runFor_eq`: a budget as large as the room makes no difference.
* `forward_program_ends`: the execution ends, after no more steps than there is room, by halting or
  by a fault, and the same with that budget.
-/

namespace SimpleMachine
namespace Machine

/-- Where the table knows the label to which an instruction branches, its address comes after that
of the instruction. -/
def Forward (m : Machine) : Prop :=
  ∀ a, (h : a < m.program.size) → ∀ name ∈ m.program[a].target?,
    ∀ address ∈ m.labels.address? name, (a : Int) < address

instance (m : Machine) : Decidable m.Forward :=
  inferInstanceAs (Decidable (∀ a, (h : a < m.program.size) → ∀ name ∈ m.program[a].target?,
    ∀ address ∈ m.labels.address? name, (a : Int) < address))

variable {o : RunOptions} {start : Nat} {m m' : Machine}

/-- A budget that is not used up at an instruction makes no difference to the round. -/
theorem turn_eq_of_allows {trace : Bool} {n : Int}
    (h : ∀ i, m.position = .at i → (m.steps : Int) - start < n) :
    m.turn { trace, limit := some n } start = m.turn { trace } start := by
  have hc := turnCase_turn { trace, limit := some n } start m
  refine (hc.loosen looser_of_unlimited fun i hp => ?_).turn_eq.symm
  rintro _ ⟨⟩
  exact h i hp

namespace Forward

theorem congr (h : Forward m) (hp : m'.program = m.program) (hl : m'.labels = m.labels) :
    Forward m' := by
  unfold Forward
  rw [hp, hl]
  exact h

/-- Neither the instruction at the counter nor a jump of it leads back. -/
theorem lt_apply {i : Instruction} {e : Effect} (h : Forward m) (hp : m.position = .at i)
    (he : i.effect m.registers = .ok e) (hl : m'.labels = m.labels) (hpc : m'.pc = m.pc + 1) :
    m.pc < (apply e m').pc := by
  obtain ⟨h₀, hi⟩ := position_eq_at_iff.1 hp
  obtain ⟨hlt, hget⟩ := Array.getElem?_eq_some_iff.1 hi
  cases e with
  | none => show m.pc < m'.pc; omega
  | write slot v => show m.pc < m'.pc; omega
  | emit v => show m.pc < m'.pc; omega
  | jump name =>
    cases ha : m.labels.address? name with
    | none =>
      have hj : (apply (.jump name) m').pc = m'.pc := by simp [apply, jump, hl, ha]
      omega
    | some address =>
      have hj : (apply (.jump name) m').pc = address := by simp [apply, jump, hl, ha]
      have htarget : name ∈ m.program[m.pc.toNat].target? := by
        rw [hget]
        exact target?_of_effect he
      have hforward := h m.pc.toNat hlt name htarget address ha
      omega

theorem next (h : Forward m) (ht : m.turn o start = .next m') :
    m.pc < m.program.size ∧ m.pc < m'.pc ∧ Forward m' := by
  cases turn_eq_iff.1 ht with
  | @obeyed i lines e hp _ _ he =>
    obtain ⟨h₀, hi⟩ := position_eq_at_iff.1 hp
    obtain ⟨hlt, -⟩ := Array.getElem?_eq_some_iff.1 hi
    refine ⟨by omega, h.lt_apply hp he rfl rfl, h.congr ?_ ?_⟩
    · simp [print]
    · simp [print]

theorem rounds {k : Nat} (h : Forward m) (hk : Rounds o start k m m') :
    Forward m' ∧ m.pc ≤ m'.pc := by
  induction hk with
  | refl => exact ⟨h, Int.le_refl _⟩
  | cons ht _ ih =>
    obtain ⟨-, hlt, hforward⟩ := h.next ht
    obtain ⟨hend, hle⟩ := ih hforward
    exact ⟨hend, by omega⟩

/-- One round more than there is room for instructions is enough. -/
theorem exists_runFor (h : Forward m) (room : Nat) (hroom : m.program.size ≤ m.pc + room) :
    ∃ r m', runFor o start (room + 1) m = some (r, m') := by
  -- the room is smaller after every round
  induction room generalizing m with
  | zero =>
    have hend : m.position = .pastEnd := position_eq_pastEnd_iff.2 (by omega)
    exact ⟨.ok (), m, by rw [runFor, (TurnCase.finished hend).turn_eq]⟩
  | succ room ih =>
    cases ht : m.turn o start with
    | stop r m' => exact ⟨r, m', by rw [runFor, ht]⟩
    | next m₁ =>
      obtain ⟨-, hlt, hforward⟩ := h.next ht
      have hprogram := (turn_next_inv ht).2.2
      obtain ⟨r, m', hrun⟩ := ih hforward (by rw [hprogram]; omega)
      exact ⟨r, m', by rw [runFor, ht]; exact hrun⟩

/-- The room is a budget that a run never uses up before its end. -/
theorem runFor_eq {trace : Bool} {n : Int} (h : Forward m)
    (hn : (m.steps : Int) - start + (m.program.size - m.pc) ≤ n) (rounds : Nat) :
    runFor { trace, limit := some n } start rounds m = runFor { trace } start rounds m := by
  -- a round takes one step from the budget and no less from the room
  induction rounds generalizing m with
  | zero => rfl
  | succ rounds ih =>
    have hturn : m.turn { trace, limit := some n } start = m.turn { trace } start := by
      refine turn_eq_of_allows fun i hp => ?_
      obtain ⟨h₀, hi⟩ := position_eq_at_iff.1 hp
      obtain ⟨hlt, -⟩ := Array.getElem?_eq_some_iff.1 hi
      omega
    rw [runFor, runFor, hturn]
    cases ht : m.turn { trace } start with
    | stop r m' => rfl
    | next m₁ =>
      obtain ⟨-, hlt, hforward⟩ := h.next ht
      obtain ⟨-, hsteps, hprogram⟩ := turn_next_inv ht
      exact ih hforward (by rw [hprogram, hsteps]; omega)

end Forward

/-- If no branch of the program leads back, an execution from an address of it, or from its end,
ends: it halts or meets a fault, after no more steps than there are instructions from that address
on. With so many steps for its budget it does exactly what it does without one, and never uses it
up. -/
theorem forward_program_ends {m : Machine} (hf : m.Forward) (h₀ : 0 ≤ m.pc)
    (h₁ : m.pc ≤ m.program.size) :
    (∃ r m', Ends m r m' ∧ (m'.steps : Int) - m.steps ≤ m.program.size - m.pc ∧
      (r = .ok () ∨ ∃ cause a i, r = .error (.machine (.fault cause a i)))) ∧
    (∀ rounds, m.execute { limit := some (m.program.size - m.pc) } rounds = m.execute {} rounds) ∧
    ∀ rounds n a i m',
      m.execute { limit := some (m.program.size - m.pc) } rounds ≠
        some (.error (.machine (.stepLimit n a i)), m') := by
  obtain ⟨room, hroom⟩ : ∃ room : Nat, (room : Int) = m.program.size - m.pc :=
    ⟨(m.program.size - m.pc).toNat, by omega⟩
  have hsame : ∀ rounds, m.execute { limit := some (m.program.size - m.pc) } rounds =
      m.execute {} rounds := by
    intro rounds
    exact hf.runFor_eq (by omega) rounds
  obtain ⟨r, m', hrun⟩ : ∃ r m', runFor {} m.steps (room + 1) m = some (r, m') :=
    hf.exists_runFor room (by omega)
  obtain ⟨k, mk, hk, hrounds, hstop⟩ := runFor_eq_some_iff_rounds.1 hrun
  obtain ⟨-, hle⟩ := hf.rounds hrounds
  have hkind : r = .ok () ∨ ∃ cause a i, r = .error (.machine (.fault cause a i)) := by
    cases turn_eq_iff.1 hstop with
    | finished _ => exact .inl rfl
    | astray hp =>
      have hneg := position_eq_beforeStart_iff.1 hp
      omega
    | spent _ hn _ => cases hn
    | unshowable _ _ hl => cases hl
    | faulted _ _ _ _ => exact .inr ⟨_, _, _, rfl⟩
  refine ⟨⟨r, m', ⟨room + 1, hrun⟩, ?_, hkind⟩, hsame, ?_⟩
  · obtain ⟨_, hquiet⟩ := advances_stop hstop
    have hsteps : m'.steps = mk.steps := hquiet.steps_eq
    have hmk : mk.steps = m.steps + k := hrounds.steps_eq
    omega
  · intro rounds n a i m₁ hx
    rw [hsame rounds] at hx
    have hends : Ends m r m' := ⟨room + 1, hrun⟩
    obtain ⟨rfl, -⟩ := hends.unique ⟨rounds, hx⟩
    rcases hkind with hok | ⟨cause, b, j, hfault⟩
    · cases hok
    · cases hfault

/-- From its second line a text makes as many steps as there are lines left, but for the one that a
branch leaves out. It branches to the first of two places with the same label, and at its end to a
label that is not there. -/
theorem forward_program_ends_skip :
    let m : Machine := (Machine.assemble
      ["a noop", "b lin 0 7", "c bnz 0 e", "d div 0 0 1", "e out 0", "e", "f bnz 0 g"]
      { registers := .zeros 2, pc := 1 }).2
    (m.Forward ∧ 0 ≤ m.pc ∧ m.pc ≤ m.program.size) ∧
      (∃ r m', Ends m r m' ∧ (m'.steps : Int) - m.steps ≤ 6) ∧
      (m.execute { limit := some 6 } 6).map (fun x => (x.1.toOption, x.2.snapshot)) =
        some (some (), ⟨7, [7, 0], [7], 5⟩) ∧
      ∀ rounds, m.execute { limit := some 6 } rounds = m.execute {} rounds := by
  intro m
  have hm : m.Forward ∧ 0 ≤ m.pc ∧ m.pc ≤ m.program.size := by decide +kernel
  have hroom : (m.program.size : Int) - m.pc = 6 := by decide +kernel
  obtain ⟨⟨r, m', hends, hsteps, -⟩, hsame, -⟩ := forward_program_ends hm.1 hm.2.1 hm.2.2
  rw [hroom] at hsteps hsame
  exact ⟨hm, ⟨r, m', hends, hsteps⟩, by decide +kernel, hsame⟩

end Machine
end SimpleMachine
