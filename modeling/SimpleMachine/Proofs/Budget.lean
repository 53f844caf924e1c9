import SimpleMachine.Proofs.Transition

/-!
# SimpleMachine.Proofs.Budget

A budget of steps may be spent in two executions, one after the other.

* `o'.Looser o`: the options `o'` allow whatever number of instructions `o` allows. The rounds of a run
  are rounds of one with a larger budget too (`Rounds.loosen`).
* `exists_endsUnder`: with a budget an execution always ends.
* `withLimit n r`: the result `r` as a budget of `n` steps would give it. A round under a budget that
  began later is a round under a larger one that began before (`turn_later`).
* `budget_splits`: a run that uses up its budget can be taken up with another one, as if both had been
  given at first; and a run that does not use it up is the same with any larger budget, or with none.
-/

namespace SimpleMachine

/-- The result with another number of steps in the place of the budget. -/
def withLimit (n : Int) : Except Failure Unit → Except Failure Unit
  | .error (.machine (.stepLimit _ pc i)) => .error (.machine (.stepLimit n pc i))
  | r => r

/-- The same round, with another number of steps in the place of the budget. -/
def Turn.withLimit (n : Int) : Turn → Turn
  | .stop r m => .stop (SimpleMachine.withLimit n r) m
  | .next m => .next m

/-- A counter that is out of range is reported without the budget. -/
theorem withLimit_astray (n pc : Int) :
    withLimit n (.error (.ofMachine (.counterOutOfRange pc))) =
      .error (.ofMachine (.counterOutOfRange pc)) := by
  unfold Failure.ofMachine
  cases (MachineError.counterOutOfRange pc).cause <;> rfl

/-- Whatever number of instructions the one allows, the other one allows too. -/
def RunOptions.Looser (o' o : RunOptions) : Prop :=
  o'.trace = o.trace ∧ ∀ done, o.Allows done → o'.Allows done

theorem looser_of_le {trace : Bool} {n k : Int} (h : n ≤ k) :
    RunOptions.Looser { trace, limit := some k } { trace, limit := some n } := by
  refine ⟨rfl, ?_⟩
  rintro done ha _ ⟨⟩
  have hlt : done < n := ha n rfl
  omega

theorem looser_of_unlimited {trace : Bool} {limit : Option Int} :
    RunOptions.Looser { trace } { trace, limit } :=
  ⟨rfl, fun _ _ => nofun⟩

namespace Machine

variable {o o' : RunOptions} {start : Nat} {m m' : Machine}

/-- The budget is not used up before the last of the rounds. -/
theorem Rounds.le_limit {k a : Nat} (h : Rounds o start k m m') (ha : o.limit = some (a : Int))
    (hm : m.steps ≤ start + a) : m.steps + k ≤ start + a := by
  induction h with
  | refl => exact hm
  | cons ht _ ih =>
    obtain ⟨hallows, hsteps, -⟩ := turn_next_inv ht
    have hlt := hallows a ha
    have hle := ih (by omega)
    omega

/-! ## A larger budget -/

/-- The budget is the only thing that a round with a larger one may do better. -/
theorem TurnCase.loosen {t : Turn} (h : TurnCase o start m t) (hl : o'.Looser o)
    (hallows : ∀ i, m.position = .at i → o.Allows ((m.steps : Int) - start)) :
    TurnCase o' start m t := by
  have hlines : ∀ i, m.announcement o' i = m.announcement o i := fun i => by
    rw [announcement, announcement, hl.1]
  cases h with
  | finished hp => exact .finished hp
  | astray hp => exact .astray hp
  | spent hp hn hle => exact absurd (hallows _ hp _ hn) (Int.not_lt.2 hle)
  | unshowable hp ha he => exact .unshowable hp (hl.2 _ ha) ((hlines _).trans he)
  | faulted hp ha hok he => exact .faulted hp (hl.2 _ ha) ((hlines _).trans hok) he
  | obeyed hp ha hok he => exact .obeyed hp (hl.2 _ ha) ((hlines _).trans hok) he

theorem Rounds.loosen {k : Nat} (h : Rounds o start k m m') (hl : o'.Looser o) :
    Rounds o' start k m m' := by
  induction h with
  | refl => exact .refl
  | cons ht _ ih =>
    have hallows := (turn_next_inv ht).1
    exact .cons ((turn_eq_iff.1 ht).loosen hl fun _ _ => hallows).turn_eq ih

/-- A round that stops at an instruction, and does not report a used up budget, has not found it
used up. -/
theorem allows_of_stop {r : Except Failure Unit} (ht : m.turn o start = .stop r m')
    (ho : ∀ n, o.limit = some n → 0 ≤ n)
    (hr : ∀ n pc i, r ≠ .error (.machine (.stepLimit n pc i))) :
    ∀ i, m.position = .at i → o.Allows ((m.steps : Int) - start) := by
  intro i hp n hn
  by_cases hlt : (m.steps : Int) - start < n
  · exact hlt
  · have hspent := (TurnCase.spent hp hn (Int.not_lt.1 hlt)).turn_eq
    rw [ht, Failure.ofMachine_stepLimit (ho n hn)] at hspent
    cases hspent
    exact absurd rfl (hr n m.pc i)

theorem EndsUnder.loosen {r : Except Failure Unit} (h : EndsUnder o m r m') (hl : o'.Looser o)
    (ho : ∀ n, o.limit = some n → 0 ≤ n)
    (hr : ∀ n pc i, r ≠ .error (.machine (.stepLimit n pc i))) : EndsUnder o' m r m' := by
  obtain ⟨rounds, hx⟩ := h
  obtain ⟨k, mk, hk, hrounds, hstop⟩ := runFor_eq_some_iff_rounds.1 hx
  refine ⟨rounds, runFor_eq_some_iff_rounds.2 ⟨k, mk, hk, hrounds.loosen hl, ?_⟩⟩
  exact ((turn_eq_iff.1 hstop).loosen hl (allows_of_stop hstop ho hr)).turn_eq

/-- With a budget an execution always ends. -/
theorem exists_runFor {trace : Bool} {a d : Nat} (hm : m.steps = start + d) (j : Nat)
    (hj : a ≤ d + j) :
    ∃ r m', runFor { trace, limit := some (a : Int) } start (j + 1) m = some (r, m') := by
  -- on the number of rounds that the budget still allows
  induction j generalizing m d with
  | zero =>
    cases ht : m.turn { trace, limit := some (a : Int) } start with
    | stop r m' => exact ⟨r, m', by rw [runFor, ht]⟩
    | next m₁ =>
      have hlt := (turn_next_inv ht).1 a rfl
      omega
  | succ j ih =>
    cases ht : m.turn { trace, limit := some (a : Int) } start with
    | stop r m' => exact ⟨r, m', by rw [runFor, ht]⟩
    | next m₁ =>
      have hsteps := (turn_next_inv ht).2.1
      obtain ⟨r, m', hx⟩ := ih (m := m₁) (d := d + 1) (by omega) (by omega)
      exact ⟨r, m', by rw [runFor, ht]; exact hx⟩

theorem exists_endsUnder (trace : Bool) (a : Nat) (m : Machine) :
    ∃ r m', EndsUnder { trace, limit := some (a : Int) } m r m' := by
  have hm : m.steps = m.steps + 0 := rfl
  obtain ⟨r, m', hx⟩ := exists_runFor (a := a) hm a (Nat.le_add_left a 0)
  exact ⟨r, m', a + 1, hx⟩

/-! ## A later start -/

/-- A budget that begins after `a` steps ends when one that has `a` steps more, and begins before
them, does. -/
theorem turn_later (trace : Bool) (a b start : Nat) (m : Machine) :
    m.turn { trace, limit := some (a + b : Int) } start =
      (m.turn { trace, limit := some (b : Int) } (start + a)).withLimit (a + b) := by
  have hallows : RunOptions.Allows { trace, limit := some (b : Int) }
      ((m.steps : Int) - (start + a : Nat)) →
      RunOptions.Allows { trace, limit := some (a + b : Int) } ((m.steps : Int) - start) := by
    rintro ha _ ⟨⟩
    have hlt : (m.steps : Int) - (start + a : Nat) < b := ha b rfl
    omega
  generalize ht : m.turn { trace, limit := some (b : Int) } (start + a) = t
  cases turn_eq_iff.1 ht with
  | finished hp => exact (TurnCase.finished hp).turn_eq
  | astray hp => rw [(TurnCase.astray hp).turn_eq, Turn.withLimit, withLimit_astray]
  | @spent i n hp hn hle =>
    cases hn
    have hspent : TurnCase { trace, limit := some (a + b : Int) } start m
        (.stop (.error (.ofMachine (.stepLimit (a + b) m.pc i))) m) := .spent hp rfl (by omega)
    rw [hspent.turn_eq, Failure.ofMachine_stepLimit (by omega),
      Failure.ofMachine_stepLimit (by omega)]
    rfl
  | unshowable hp ha he => exact (TurnCase.unshowable hp (hallows ha) he).turn_eq
  | faulted hp ha hok he => exact (TurnCase.faulted hp (hallows ha) hok he).turn_eq
  | obeyed hp ha hok he => exact (TurnCase.obeyed hp (hallows ha) hok he).turn_eq

theorem runFor_later {trace : Bool} {a b rounds : Nat} {r : Except Failure Unit}
    (h : runFor { trace, limit := some (b : Int) } (start + a) rounds m = some (r, m')) :
    runFor { trace, limit := some (a + b : Int) } start rounds m =
      some (withLimit (a + b) r, m') := by
  induction rounds generalizing m with
  | zero => cases h
  | succ rounds ih =>
    rw [runFor] at h ⊢
    rw [turn_later]
    cases ht : m.turn { trace, limit := some (b : Int) } (start + a) with
    | stop r₁ m₁ =>
      rw [ht] at h
      cases h
      rfl
    | next m₁ =>
      rw [ht] at h
      exact ih h

/-! ## Two budgets -/

/-- A round that reports a used up budget has found it used up, and has done nothing else. -/
theorem turn_stepLimit_inv {n pc : Int} {i : Instruction}
    (h : m.turn o start = .stop (.error (.machine (.stepLimit n pc i))) m') :
    o.limit = some n ∧ n ≤ (m.steps : Int) - start ∧ m' = m := by
  generalize hr : (.error (.machine (.stepLimit n pc i)) : Except Failure Unit) = r at h
  cases turn_eq_iff.1 h with
  | finished _ => cases hr
  | astray _ => cases Failure.eq_of_ofMachine (Except.error.inj hr).symm
  | spent _ hn hle =>
    cases Failure.eq_of_ofMachine (Except.error.inj hr).symm
    exact ⟨hn, hle, rfl⟩
  | unshowable _ _ _ => cases hr
  | faulted _ _ _ _ => cases hr

/-- A run that uses up its budget has made as many steps as that, and is where a run with a larger
one comes past. -/
theorem rounds_of_spent {trace : Bool} {a : Nat} {n pc : Int} {i : Instruction}
    (h : EndsUnder { trace, limit := some (a : Int) } m (.error (.machine (.stepLimit n pc i))) m') :
    m'.steps = m.steps + a ∧ Rounds { trace, limit := some (a : Int) } m.steps a m m' := by
  obtain ⟨rounds, hx⟩ := h
  obtain ⟨k, mk, -, hrounds, hstop⟩ := runFor_eq_some_iff_rounds.1 hx
  obtain ⟨hn, hle, rfl⟩ := turn_stepLimit_inv hstop
  cases hn
  have hsteps := hrounds.steps_eq
  have hlimit := hrounds.le_limit rfl (Nat.le_add_right m.steps a)
  obtain rfl : k = a := by omega
  exact ⟨hsteps, hrounds⟩

/-- An execution with a budget of `a` steps always ends. If it uses up the budget, it has made `a`
steps, and another execution with `b` steps then ends as a single one with `a + b` steps from the
original state does: in the same state and with the same result, but for the number of steps in a
report that the budget is used up. If it ends in any other way, it ends in the same way and state
with a budget of `a + b` steps, and with none. -/
theorem budget_splits (trace : Bool) (a b : Nat) (m : Machine) :
    (∃ r m₁, EndsUnder { trace, limit := some (a : Int) } m r m₁) ∧
    (∀ n pc i m₁,
      EndsUnder { trace, limit := some (a : Int) } m (.error (.machine (.stepLimit n pc i))) m₁ →
      m₁.steps = m.steps + a ∧ ∃ r m₂, EndsUnder { trace, limit := some (b : Int) } m₁ r m₂ ∧
        EndsUnder { trace, limit := some (a + b : Int) } m (withLimit (a + b) r) m₂) ∧
    ∀ r m₁, EndsUnder { trace, limit := some (a : Int) } m r m₁ →
      (∀ n pc i, r ≠ .error (.machine (.stepLimit n pc i))) →
      EndsUnder { trace, limit := some (a + b : Int) } m r m₁ ∧ EndsUnder { trace } m r m₁ := by
  have hlooser : RunOptions.Looser { trace, limit := some (a + b : Int) }
      { trace, limit := some (a : Int) } := looser_of_le (by omega)
  have hpositive : ∀ n, some (a : Int) = some n → 0 ≤ n := by
    rintro _ ⟨⟩
    omega
  refine ⟨exists_endsUnder trace a m, fun n pc i m₁ h => ?_, fun r m₁ h hr => ?_⟩
  · obtain ⟨hsteps, hrounds⟩ := rounds_of_spent h
    obtain ⟨r, m₂, rest, hx⟩ := exists_endsUnder trace b m₁
    refine ⟨hsteps, r, m₂, ⟨rest, hx⟩, a + rest, ?_⟩
    rw [execute, runFor_of_rounds (hrounds.loosen hlooser)]
    rw [execute, hsteps] at hx
    exact runFor_later hx
  · exact ⟨h.loosen hlooser hpositive hr, h.loosen looser_of_unlimited hpositive hr⟩

/-- A loop is stopped by its budget twice and by a double budget at the same place; and a run that halts
with the last step that it may make needs no more. -/
theorem budget_splits_loop :
    let i : Instruction := ⟨"b", .noop, []⟩
    let j : Instruction := ⟨"c", .bnz, [.int 0, .word "b"]⟩
    let m : Machine :=
      { registers := (Bank.zeros 1).write 0 7, labels := (∅ : LabelTable).add "b" 0,
        program := #[i, j], steps := 4 }
    let m₁ : Machine := { m with pc := 1, steps := 5 }
    let m₂ : Machine := { m₁ with pc := 0, steps := 6 }
    let p : Machine := { m with pc := 1, registers := .zeros 1 }
    EndsUnder { limit := some 1 } m (.error (.machine (.stepLimit 1 1 j))) m₁ ∧
      EndsUnder { limit := some 1 } m₁ (.error (.machine (.stepLimit 1 0 i))) m₂ ∧
      EndsUnder { limit := some 2 } m (.error (.machine (.stepLimit 2 0 i))) m₂ ∧
      EndsUnder {} p (.ok ()) { p with pc := 2, steps := 5 } := by
  intro i j m m₁ m₂ p
  have h₁ : EndsUnder { limit := some 1 } m (.error (.machine (.stepLimit 1 1 j))) m₁ :=
    ⟨2, by rfl⟩
  have h₂ : EndsUnder { limit := some 1 } m₁ (.error (.machine (.stepLimit 1 0 i))) m₂ :=
    ⟨2, by rfl⟩
  have hp : EndsUnder { limit := some 1 } p (.ok ()) { p with pc := 2, steps := 5 } :=
    ⟨2, by rfl⟩
  obtain ⟨-, hspent, -⟩ := budget_splits false 1 1 m
  obtain ⟨-, r, m', hr, h⟩ := hspent 1 1 j m₁ h₁
  obtain ⟨rfl, rfl⟩ := hr.unique h₂
  obtain ⟨-, -, hother⟩ := budget_splits false 1 1 p
  exact ⟨h₁, h₂, h, (hother _ _ hp (by rintro n pc i ⟨⟩)).2⟩

end Machine
end SimpleMachine
