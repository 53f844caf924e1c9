import SimpleMachine.Machine.Session
import SimpleMachine.Proofs.Digits
import SimpleMachine.Proofs.Transition

/-!
# SimpleMachine.Proofs.Refinement

An execution without tracing is `step` done again and again.

* `Steps k m m'`: `k` successful steps lead from `m` to `m'`.
* `EndsAt limit done m r m'`: an execution that has made `done` steps and now stands at `m` ends
  there, with result `r`, and leaves `m'`. The four reasons are tried in the order end of the
  program, negative counter, budget, fault.
* `FirstEnd limit done m k r m'`: of the states met from `m` on, the one after `k` steps is the
  first at which the execution ends.
* `execute_refines_step`: the execution ends as `FirstEnd` says, goes on for ever if no state is an
  end, and its budget is about the steps of this run alone.
* `execute_of_far_limit`: that a budget is used up is not reported if its limit cannot be shown.
-/

namespace SimpleMachine
namespace Machine

inductive Steps : Nat → Machine → Machine → Prop where
  | refl {m : Machine} : Steps 0 m m
  | cons {k : Nat} {m m' m'' : Machine} :
      m.step = (.ok true, m') → Steps k m' m'' → Steps (k + 1) m m''

inductive EndsAt (limit : Option Int) (done : Nat) (m : Machine) :
    Except Failure Unit → Machine → Prop where
  | finished : m.program.size ≤ m.pc → EndsAt limit done m (.ok ()) m
  | astray : m.pc < 0 →
      EndsAt limit done m (.error (.ofMachine (.counterOutOfRange m.pc))) m
  | spent {n : Int} {i : Instruction} :
      0 ≤ m.pc → m.program[m.pc.toNat]? = some i → limit = some n → n ≤ done →
      EndsAt limit done m (.error (.ofMachine (.stepLimit n m.pc i))) m
  | faulted {f : Failure} {m' : Machine} :
      0 ≤ m.pc → m.pc < m.program.size → (∀ n, limit = some n → done < n) →
      m.step = (.error f, m') → EndsAt limit done m (.error f) m'

structure FirstEnd (limit : Option Int) (done : Nat) (m : Machine) (k : Nat)
    (r : Except Failure Unit) (m' : Machine) : Prop where
  ends : ∃ mk, Steps k m mk ∧ EndsAt limit (done + k) mk r m'
  first : ∀ j mj, j < k → Steps j m mj → ∀ r' m'', ¬ EndsAt limit (done + j) mj r' m''

namespace Steps

theorem unique {k : Nat} {m m₁ m₂ : Machine} (h₁ : Steps k m m₁) (h₂ : Steps k m m₂) :
    m₁ = m₂ := by
  induction h₁ with
  | refl => cases h₂; rfl
  | cons hs _ ih =>
    cases h₂ with
    | cons hs' h₂ =>
      rw [hs] at hs'; cases hs'
      exact ih h₂

/-- A successful step has an instruction to obey, counts it, and leaves the program alone. -/
theorem step_inv {m m' : Machine} (h : m.step = (.ok true, m')) :
    (∃ i, m.position = .at i) ∧ m'.steps = m.steps + 1 ∧ m'.program = m.program := by
  cases step_eq_iff.1 h with
  | obeyed hp _ => exact ⟨⟨_, hp⟩, by simp, by simp⟩

theorem steps_eq {k : Nat} {m m' : Machine} (h : Steps k m m') : m'.steps = m.steps + k := by
  induction h with
  | refl => rfl
  | cons hs _ ih => rw [ih, (step_inv hs).2.1]; omega

theorem program_eq {k : Nat} {m m' : Machine} (h : Steps k m m') : m'.program = m.program := by
  induction h with
  | refl => rfl
  | cons hs _ ih => rw [ih, (step_inv hs).2.2]

/-- The steps before the last ones are steps too. -/
theorem take {j k : Nat} {m mk : Machine} (h : Steps k m mk) (hj : j ≤ k) :
    ∃ mj, Steps j m mj := by
  induction h generalizing j with
  | refl =>
    obtain rfl : j = 0 := by omega
    exact ⟨_, .refl⟩
  | cons hs _ ih =>
    cases j with
    | zero => exact ⟨_, .refl⟩
    | succ j =>
      obtain ⟨mj, hmj⟩ := ih (by omega : j ≤ _)
      exact ⟨mj, .cons hs hmj⟩

/-- A state before the last one is followed by one more step. -/
theorem step_of_lt {j k : Nat} {m mj mk : Machine} (hk : Steps k m mk) (hj : Steps j m mj)
    (hjk : j < k) : ∃ m', mj.step = (.ok true, m') := by
  induction hj generalizing k with
  | refl =>
    cases hk with
    | refl => omega
    | cons hs _ => exact ⟨_, hs⟩
  | cons hs _ ih =>
    cases hk with
    | refl => omega
    | cons hs' hk =>
      rw [hs] at hs'; cases hs'
      exact ih hk (by omega)

end Steps

/-! ## One round -/

/-- Without tracing, a round stops exactly where the execution ends. -/
theorem turn_eq_stop_iff {limit : Option Int} {start done : Nat} {m m' : Machine}
    {r : Except Failure Unit} (hm : m.steps = start + done) :
    m.turn { limit } start = .stop r m' ↔ EndsAt limit done m r m' := by
  have hd : (m.steps : Int) - start = done := by omega
  rw [turn_eq_iff]
  constructor
  · intro h
    cases h with
    | finished hp => exact .finished (position_eq_pastEnd_iff.1 hp)
    | astray hp => exact .astray (position_eq_beforeStart_iff.1 hp)
    | spent hp hn hle =>
      obtain ⟨h₀, hi⟩ := position_eq_at_iff.1 hp
      exact .spent h₀ hi hn (by omega)
    | unshowable _ _ hl => cases hl
    | faulted hp ha hl he =>
      cases hl
      obtain ⟨h₀, hi⟩ := position_eq_at_iff.1 hp
      obtain ⟨hlt, -⟩ := Array.getElem?_eq_some_iff.1 hi
      rw [print_empty]
      exact .faulted h₀ (by omega) (by rw [hd] at ha; exact ha) (StepCase.faulted hp he).step_eq
  · intro h
    cases h with
    | finished hp => exact .finished (position_eq_pastEnd_iff.2 hp)
    | astray hp => exact .astray (position_eq_beforeStart_iff.2 hp)
    | spent h₀ hi hn hle => exact .spent (position_eq_at_iff.2 ⟨h₀, hi⟩) hn (by omega)
    | faulted h₀ hlt ha hs =>
      cases step_eq_iff.1 hs with
      | astray hp => exact absurd (position_eq_beforeStart_iff.1 hp) (by omega)
      | faulted hp he =>
        have hc := TurnCase.faulted (o := { limit }) hp (by rw [hd]; exact ha) rfl he
        rwa [print_empty] at hc

/-- Without tracing, a round goes on exactly where the execution does not end, with a step. -/
theorem turn_eq_next_iff {limit : Option Int} {start done : Nat} {m m' : Machine}
    (hm : m.steps = start + done) :
    m.turn { limit } start = .next m' ↔
      (∀ r m'', ¬ EndsAt limit done m r m'') ∧ m.step = (.ok true, m') := by
  constructor
  · intro h
    refine ⟨fun r m'' he => ?_, ?_⟩
    · rw [(turn_eq_stop_iff hm).2 he] at h
      cases h
    · cases turn_eq_iff.1 h with
      | obeyed hp _ hl he =>
        cases hl
        rw [print_empty]
        exact (StepCase.obeyed hp he).step_eq
  · rintro ⟨hne, hs⟩
    cases ht : m.turn { limit } start with
    | stop r m'' => exact absurd ((turn_eq_stop_iff hm).1 ht) (hne r m'')
    | next m'' =>
      cases turn_eq_iff.1 ht with
      | obeyed hp _ hl he =>
        cases hl
        rw [(StepCase.obeyed hp he).step_eq] at hs
        cases hs
        rw [print_empty]

/-! ## A whole run -/

theorem firstEnd_zero_iff {limit : Option Int} {done : Nat} {m m' : Machine}
    {r : Except Failure Unit} : FirstEnd limit done m 0 r m' ↔ EndsAt limit done m r m' := by
  constructor
  · rintro ⟨⟨mk, hs, he⟩, -⟩
    cases hs
    exact he
  · intro he
    exact ⟨⟨m, .refl, he⟩, fun j _ hj => absurd hj (Nat.not_lt_zero j)⟩

theorem firstEnd_succ_iff {limit : Option Int} {done k : Nat} {m m' : Machine}
    {r : Except Failure Unit} :
    FirstEnd limit done m (k + 1) r m' ↔
      (∀ r' m'', ¬ EndsAt limit done m r' m'') ∧
        ∃ m₁, m.step = (.ok true, m₁) ∧ FirstEnd limit (done + 1) m₁ k r m' := by
  constructor
  · rintro ⟨⟨mk, hs, he⟩, hf⟩
    cases hs with
    | @cons _ _ m₁ _ hs hk =>
      refine ⟨hf 0 m (by omega) .refl, m₁, hs, ⟨⟨mk, hk, ?_⟩, fun j mj hj hmj => ?_⟩⟩
      · rwa [show done + 1 + k = done + (k + 1) by omega]
      · rw [show done + 1 + j = done + (j + 1) by omega]
        exact hf (j + 1) mj (by omega) (.cons hs hmj)
  · rintro ⟨hne, m₁, hs, ⟨mk, hk, he⟩, hf⟩
    refine ⟨⟨mk, .cons hs hk, ?_⟩, fun j mj hj hmj => ?_⟩
    · rwa [show done + (k + 1) = done + 1 + k by omega]
    · cases hmj with
      | refl => exact hne
      | @cons j _ m₂ _ hs' hmj =>
        rw [hs] at hs'; cases hs'
        rw [show done + (j + 1) = done + 1 + j by omega]
        exact hf j mj (by omega) hmj

/-- The rounds of a run meet the first end if there are enough of them. -/
theorem runFor_eq_some_iff {limit : Option Int} {start rounds done : Nat} {m m' : Machine}
    {r : Except Failure Unit} (hm : m.steps = start + done) :
    runFor { limit } start rounds m = some (r, m') ↔
      ∃ k, k < rounds ∧ FirstEnd limit done m k r m' := by
  induction rounds generalizing m done with
  | zero => simp [runFor]
  | succ rounds ih =>
    cases ht : m.turn { limit } start with
    | stop r₁ m₁ =>
      have he := (turn_eq_stop_iff hm).1 ht
      simp only [runFor, ht, Option.some.injEq, Prod.mk.injEq]
      constructor
      · rintro ⟨rfl, rfl⟩
        exact ⟨0, by omega, firstEnd_zero_iff.2 he⟩
      · rintro ⟨k, -, hk⟩
        cases k with
        | zero =>
          have ht' := (turn_eq_stop_iff hm).2 (firstEnd_zero_iff.1 hk)
          rw [ht] at ht'; cases ht'
          exact ⟨rfl, rfl⟩
        | succ k => exact absurd he ((firstEnd_succ_iff.1 hk).1 r₁ m₁)
    | next m₁ =>
      obtain ⟨hne, hs⟩ := (turn_eq_next_iff hm).1 ht
      have hm₁ : m₁.steps = start + (done + 1) := by
        rw [(Steps.step_inv hs).2.1, hm]; omega
      simp only [runFor, ht, ih hm₁]
      constructor
      · rintro ⟨k, hk, hf⟩
        exact ⟨k + 1, by omega, firstEnd_succ_iff.2 ⟨hne, m₁, hs, hf⟩⟩
      · rintro ⟨k, hk, hf⟩
        cases k with
        | zero => exact absurd (firstEnd_zero_iff.1 hf) (hne r m')
        | succ k =>
          obtain ⟨-, m₂, hs', hf'⟩ := firstEnd_succ_iff.1 hf
          rw [hs] at hs'; cases hs'
          exact ⟨k, by omega, hf'⟩

/-- If any state met is an end, one of them is the first. -/
theorem exists_firstEnd {limit : Option Int} {done k : Nat} {m mk m' : Machine}
    {r : Except Failure Unit} (hk : Steps k m mk) (he : EndsAt limit (done + k) mk r m') :
    ∃ j r₁ m₁, FirstEnd limit done m j r₁ m₁ := by
  induction hk generalizing done with
  | refl => exact ⟨0, r, m', firstEnd_zero_iff.2 he⟩
  | @cons k m m₁ mk hs _ ih =>
    by_cases hne : ∀ r' m'', ¬ EndsAt limit done m r' m''
    · rw [show done + (k + 1) = done + 1 + k by omega] at he
      obtain ⟨j, r₁, m₂, hf⟩ := ih he
      exact ⟨j + 1, r₁, m₂, firstEnd_succ_iff.2 ⟨hne, m₁, hs, hf⟩⟩
    · simp only [Classical.not_forall, Classical.not_not] at hne
      obtain ⟨r₁, m₂, he₀⟩ := hne
      exact ⟨0, r₁, m₂, firstEnd_zero_iff.2 he₀⟩

namespace FirstEnd

/-- The end itself obeys no instruction, so the counter of steps has moved by `k`. -/
theorem steps_eq {limit : Option Int} {done k : Nat} {m m' : Machine} {r : Except Failure Unit}
    (h : FirstEnd limit done m k r m') : m'.steps = m.steps + k := by
  obtain ⟨mk, hk, he⟩ := h.ends
  have hm' : m'.steps = mk.steps := by
    cases he with
    | finished _ => rfl
    | astray _ => rfl
    | spent _ _ _ _ => rfl
    | faulted _ _ _ hs =>
      cases step_eq_iff.1 hs with
      | astray _ => rfl
      | faulted _ _ => rfl
  rw [hm', hk.steps_eq]

/-- A run makes no more steps than its budget allows. -/
theorem le_limit {n : Int} {k : Nat} {m m' : Machine} {r : Except Failure Unit}
    (h : FirstEnd (some n) 0 m k r m') : k ≤ n.toNat := by
  obtain ⟨mk, hk, -⟩ := h.ends
  by_cases hlt : n.toNat < k
  · obtain ⟨mj, hj⟩ := hk.take (by omega : n.toNat ≤ k)
    obtain ⟨m₁, hs⟩ := hk.step_of_lt hj hlt
    obtain ⟨⟨i, hp⟩, -, -⟩ := Steps.step_inv hs
    obtain ⟨h₀, hi⟩ := position_eq_at_iff.1 hp
    exact absurd (.spent h₀ hi rfl (by omega)) (h.first n.toNat mj hlt hj _ mj)
  · omega

end FirstEnd

/-- An execution without tracing ends at the first state that is an end, and only there; without
such a state it goes on for ever. Its budget counts the steps of this run, whatever the counter of
steps stood at before. A negative counter and a used up budget are reported as such, but for a number
of too many digits (`Failure.ofMachine_eq`). -/
theorem execute_refines_step (files : FileTree) (limit : Option Int) (m : Machine) :
    (∀ rounds p, m.perform files rounds (.execute { limit }) = some p ↔
      ∃ k r m', k < rounds ∧ FirstEnd limit 0 m k r m' ∧
        p = { result := r.map fun _ => .output m'.snapshot.output, machine := m' }) ∧
    ((∀ rounds, m.perform files rounds (.execute { limit }) = none) ↔
      ∀ k mk r m', Steps k m mk → ¬ EndsAt limit k mk r m') ∧
    (∀ k r m', FirstEnd limit 0 m k r m' →
      m'.steps = m.steps + k ∧ ∀ n, limit = some n → k ≤ n.toNat) := by
  have hrun : ∀ rounds r m', m.execute { limit } rounds = some (r, m') ↔
      ∃ k, k < rounds ∧ FirstEnd limit 0 m k r m' :=
    fun rounds r m' => runFor_eq_some_iff (Nat.add_zero m.steps).symm
  refine ⟨fun rounds p => ?_, ?_, fun k r m' h => ⟨h.steps_eq, ?_⟩⟩
  · simp only [perform, Option.map_eq_some_iff, Prod.exists, hrun]
    constructor
    · rintro ⟨r, m', ⟨k, hk, hf⟩, rfl⟩
      exact ⟨k, r, m', hk, hf, rfl⟩
    · rintro ⟨k, r, m', hk, hf, rfl⟩
      exact ⟨r, m', ⟨k, hk, hf⟩, rfl⟩
  · simp only [perform, Option.map_eq_none_iff]
    constructor
    · intro hnone k mk r m' hk he
      rw [← Nat.zero_add k] at he
      obtain ⟨j, r₁, m₁, hf⟩ := exists_firstEnd hk he
      have hsome := (hrun (j + 1) r₁ m₁).2 ⟨j, Nat.lt_succ_self j, hf⟩
      rw [hnone (j + 1)] at hsome; cases hsome
    · intro hne rounds
      cases hx : m.execute { limit } rounds with
      | none => rfl
      | some rm =>
        obtain ⟨k, -, ⟨mk, hk, he⟩, -⟩ := (hrun rounds rm.1 rm.2).1 hx
        rw [Nat.zero_add] at he
        exact absurd he (hne k mk rm.1 rm.2 hk)
  · rintro n rfl
    exact h.le_limit

/-- A budget of one step lets the first of two instructions be obeyed, after any earlier steps. -/
theorem execute_refines_step_one :
    let i : Instruction := ⟨"a", .noop, []⟩
    let m : Machine := { registers := .zeros 1, program := #[i, i], steps := 5 }
    let m' : Machine := { m with pc := 1, steps := 6 }
    m.perform {} 9 (.execute { limit := some 1 }) =
        some { result := .error (.machine (.stepLimit 1 1 i)), machine := m' } ∧
      ∃ k, FirstEnd (some 1) 0 m k (.error (.machine (.stepLimit 1 1 i))) m' ∧ k ≤ 1 := by
  intro i m m'
  have hx : m.perform {} 9 (.execute { limit := some 1 }) =
      some { result := .error (.machine (.stepLimit 1 1 i)), machine := m' } := by rfl
  obtain ⟨hiff, -, hend⟩ := execute_refines_step {} (some 1) m
  obtain ⟨k, r, m₁, -, hf, hp⟩ := (hiff 9 _).1 hx
  obtain ⟨hr, -, rfl⟩ := Performed.mk.inj hp
  cases r with
  | ok _ => cases hr
  | error f =>
    cases hr
    exact ⟨hx, k, hf, (hend k _ _ hf).2 1 rfl⟩

/-- A limit that is used up at once and cannot be shown. -/
theorem execute_of_far_limit {limit : Int} {m : Machine} {i : Instruction}
    (hp : m.position = .at i) (hneg : limit < 0) (hlong : ¬ Numeral.Short limit) (rounds : Nat) :
    m.execute { limit := some limit } (rounds + 1) =
      some (.error (.unshowable .tooManyDigits), m) := by
  obtain ⟨h₀, hi⟩ := position_eq_at_iff.1 hp
  have hspent : EndsAt (some limit) 0 m (.error (.ofMachine (.stepLimit limit m.pc i))) m :=
    .spent h₀ hi rfl (Int.le_of_lt hneg)
  rw [Failure.ofMachine_stepLimit_of_long hneg hlong] at hspent
  exact (runFor_eq_some_iff (Nat.add_zero m.steps).symm).2
    ⟨0, Nat.succ_pos rounds, firstEnd_zero_iff.2 hspent⟩

/-- A limit so far below zero that it cannot be shown is used up at once, like any other that is not
positive, but the execution does not fail with the report of a used up budget. -/
theorem far_limit_is_not_reported :
    let limit : Int := -Numeral.leastLong
    let i : Instruction := ⟨"a", .noop, []⟩
    let m : Machine := { registers := .zeros 1, program := #[i] }
    (m.pc < m.program.size ∧ 0 ≤ m.pc ∧ limit ≤ 0) ∧
      ∃ p, m.perform {} 1 (.execute { limit := some limit }) = some p ∧
        p.result ≠ .error (.machine (.stepLimit limit m.pc i)) := by
  intro limit i m
  have hneg : limit < 0 := Int.neg_neg_of_pos Numeral.leastLong_pos
  have hx := execute_of_far_limit (m := m) (i := i) rfl hneg Numeral.not_short_neg_leastLong 0
  have hp : m.perform {} 1 (.execute { limit := some limit }) =
      some { result := .error (.unshowable .tooManyDigits), machine := m } := by
    rw [perform, hx]
    rfl
  exact ⟨⟨by decide, Int.le_refl 0, Int.le_of_lt hneg⟩, _, hp, nofun⟩

end Machine
end SimpleMachine
