import SimpleMachine.Proofs.Invariant
import SimpleMachine.Proofs.Renaming
import SimpleMachine.Proofs.Showing

/-!
# SimpleMachine.Proofs.Tracing

Tracing shows an execution and has no part in it.

* `Traceable m`: the program of the machine is that of a text, or a list of instructions of which
  every remark is a text.
* `ComesToLong limit start k m mk`: after `k` steps the execution is at an instruction with an operand
  of too many digits. Otherwise the instruction can be shown (`showable_of_not_comesToLong`), and a
  program of a text has none but such (`Showable.not_comesToLong`).
* `heading m`, `said m`: the lines that announce the instruction at the counter, and those that it
  prints itself. `transcript trace n m`: what `n` attempts print, with the headings or without.
* `EndTraced c p x y`: the ends of two executions from `p`, of which the right one is traced and
  began with the console `c`. A round of one is a round of the other (`turn_traced`), and so is an
  execution (`runFor_traced`).
* `tracing_only_announces`: the two executions of a machine end alike, and the traced one has
  printed the headings too; but it fails where the other one would come to an operand of too many
  digits.
-/

namespace SimpleMachine

/-! ## Programs that can be shown -/

namespace Machine

/-- The program comes from a text, whether that could be read to its end or not, or it was built of
instructions whose remarks are texts. -/
inductive Traceable (m : Machine) : Prop where
  | assembled {m₀ : Machine} {lines : List String} :
      m.program = (m₀.assemble lines).2.program → Traceable m
  | read {m₀ : Machine} {path encoding : String} {contents : Except OpenError ByteArray} :
      m.program = (m₀.readContents path encoding contents).machine.program → Traceable m
  | loaded {program : List Instruction} :
      (∀ i ∈ program, i.TextRemark) → m.program = program.toArray → Traceable m

theorem showable_unload (m : Machine) : m.unload.Showable := by
  rintro i ⟨hi⟩
  cases hi

/-- A text that cannot be assembled leaves the instructions of its first lines, or none. -/
theorem showable_assemble (lines : List String) (m : Machine) : (m.assemble lines).2.Showable := by
  cases hw : Source.firstRefused m.mode lines with
  | none =>
    have hok := assemble_eq_ok_iff.2 ⟨hw, rfl⟩
    rw [hok]
    exact showable_of_assemble hok
  | some w =>
    by_cases ho : Source.Overlong w
    · obtain ⟨before, line, after, l, -, hl, hm⟩ := assemble_of_overlong hw ho
      have hbefore : m.assemble before = (.ok (), m.install l) := by simp only [assemble, hl]
      rw [hm]
      exact (showable_of_assemble hbefore).congr rfl
    · rw [assemble_of_refused hw ho]
      exact showable_unload m

theorem Traceable.textRemark {m : Machine} (h : m.Traceable) : ∀ i ∈ m.program, i.TextRemark := by
  have hshowable : ∀ m' : Machine, m'.Showable → m.program = m'.program →
      ∀ i ∈ m.program, i.TextRemark := by
    intro m' h' hp i hi
    exact (showable_iff.1 (h'.congr hp i hi)).1
  cases h with
  | @assembled m₀ lines hp => exact hshowable _ (showable_assemble lines m₀) hp
  | @read m₀ path encoding contents hp =>
    refine hshowable _ ?_ hp
    cases hl : linesOf? contents encoding with
    | none =>
      rw [readContents_of_no_lines hl]
      exact showable_unload m₀
    | some lines =>
      rw [(readContents_of_lines path hl).2]
      exact showable_assemble lines m₀
  | loaded hi hp =>
    intro i hmem
    rw [hp, List.mem_toArray] at hmem
    exact hi i hmem

/-- After `k` steps, and before its budget is used up, the execution is at an instruction with an
operand of too many digits. -/
def ComesToLong (limit : Option Int) (start k : Nat) (m mk : Machine) : Prop :=
  Steps k m mk ∧ RunOptions.Allows { limit } ((mk.steps : Int) - start) ∧
    ∃ i, mk.position = .at i ∧ ¬ i.ShortOperands

theorem Showable.not_comesToLong {m mk : Machine} (h : m.Showable) (limit : Option Int)
    (start k : Nat) : ¬ ComesToLong limit start k m mk := by
  rintro ⟨hk, -, i, hp, hlong⟩
  exact hlong (showable_iff.1 ((h.congr hk.program_eq).at_position hp)).2

theorem showable_of_not_comesToLong {m : Machine} {limit : Option Int} {start : Nat}
    (ht : ∀ i ∈ m.program, i.TextRemark) (hm : ¬ ComesToLong limit start 0 m m) {i : Instruction}
    (hp : m.position = .at i) (ha : RunOptions.Allows { limit } ((m.steps : Int) - start)) :
    i.Showable := by
  obtain ⟨-, hi⟩ := position_eq_at_iff.1 hp
  refine showable_iff.2 ⟨ht i (Array.mem_of_getElem? hi), ?_⟩
  by_cases hs : i.ShortOperands
  · exact hs
  · exact absurd ⟨.refl, ha, i, hp, hs⟩ hm

/-! ## What is printed -/

/-- The lines that announce the instruction at the counter. -/
def heading (m : Machine) : List String :=
  match m.position with
  | .at i =>
    match m.traceLines i with
    | .ok lines => lines.toList
    | .error _ => []
  | _ => []

/-- The lines that the next step prints. -/
def said (m : Machine) : List String := m.step.2.console.toList.drop m.console.size

/-- What a number of attempts to obey an instruction print, with the headings or without. -/
def transcript (trace : Bool) : Nat → Machine → List String
  | 0, _ => []
  | n + 1, m => (if trace then m.heading else []) ++ m.said ++ transcript trace n m.step.2

variable {m m' : Machine}

theorem said_eq {printed : List String}
    (h : m.step.2.console.toList = m.console.toList ++ printed) : m.said = printed := by
  rw [said, h, ← Array.length_toList, List.drop_left]

theorem said_of_fault {i : Instruction} {f : Fault} (hp : m.position = .at i)
    (he : i.effect m.registers = .error f) : m.said = [] := by
  refine said_eq ?_
  rw [(StepCase.faulted hp he).step_eq, List.append_nil]

theorem said_of_effect {i : Instruction} {e : Effect} (hp : m.position = .at i)
    (he : i.effect m.registers = .ok e) : m.said = decimals e.sent := by
  refine said_eq ?_
  rw [(StepCase.obeyed hp he).step_eq]
  have happly : Advances false [] e.sent (decimals e.sent) _ (apply e _) :=
    .apply e { m with pc := m.pc + 1, steps := m.steps + 1 }
  exact happly.console_eq

/-- What an effect prints does not depend on what has been printed before. -/
theorem apply_console (e : Effect) (m : Machine) (c : Array String) :
    apply e { m with console := c } =
      { apply e m with console := c ++ (decimals e.sent).toArray } := by
  cases e with
  | none => simp [apply, Effect.sent, decimals]
  | write slot v => simp [apply, Effect.sent, decimals]
  | emit v => simp [apply, Effect.sent, decimals]
  | jump name =>
    cases ha : m.labels.address? name <;> simp [apply, jump, ha, Effect.sent, decimals]

/-! ## Two executions -/

/-- The machine with other lines on its console. -/
def withConsole (c : Array String) (m : Machine) : Machine := { m with console := c }

/-- The counter is at an instruction, and its heading shows this and the registers. -/
def Announced (m : Machine) : Prop :=
  ∃ i shown, m.position = .at i ∧ i.shown = .ok shown ∧
    m.heading = ["[PC=" ++ Numeral.text m.pc ++ "] EXEC: " ++ shown,
      "  REGISTERS: " ++ m.registers.shown]

/-- An instruction that failed was attempted, but not counted. -/
def uncounted : Except Failure Unit → Nat
  | .error (.machine (.fault ..)) => 1
  | _ => 0

/-- Two executions that began at `p`, the right one traced and with the lines `c` on its console,
have ended after `n` attempts to obey an instruction. -/
structure Traced (c : Array String) (p : Machine) (n : Nat)
    (x y : Except Failure Unit × Machine) : Prop where
  result_eq : y.1 = x.1
  after_eq : x.2 = after n p
  rest_eq : y.2 = x.2.withConsole y.2.console
  untraced_console : x.2.console.toList = p.console.toList ++ transcript false n p
  traced_console : y.2.console.toList = c.toList ++ transcript true n p
  announced : ∀ j < n, (after j p).Announced

/-- The two executions have attempted the instructions that have been counted, and the one that
failed. -/
def EndTraced (c : Array String) (p : Machine) (x y : Except Failure Unit × Machine) : Prop :=
  ∃ n, x.2.steps + uncounted x.1 = p.steps + n ∧ Traced c p n x y

/-- How a round of a traced execution relates to one of an untraced one. -/
inductive TurnTraced (c : Array String) (p : Machine) : Turn → Turn → Prop where
  | ended {r : Except Failure Unit} :
      uncounted r = 0 → TurnTraced c p (.stop r p) (.stop r (p.withConsole c))
  | failed {r : Except Failure Unit} {p' q' : Machine} :
      uncounted r = 1 → p.Announced → p' = p.step.2 → p'.steps = p.steps →
      q' = p'.withConsole (c ++ (p.heading ++ p.said).toArray) →
      TurnTraced c p (.stop r p') (.stop r q')
  | next {p' q' : Machine} :
      p.Announced → p.step = (.ok true, p') → p'.steps = p.steps + 1 →
      q' = p'.withConsole (c ++ (p.heading ++ p.said).toArray) →
      TurnTraced c p (.next p') (.next q')

variable {p : Machine} {c : Array String} {i : Instruction}

theorem heading_eq {shown : String} (hp : m.position = .at i) (hs : i.shown = .ok shown) :
    m.heading = ["[PC=" ++ Numeral.text m.pc ++ "] EXEC: " ++ shown,
      "  REGISTERS: " ++ m.registers.shown] := by
  simp only [heading, hp, traceLines, hs]
  rfl

theorem announced_of_position (hi : i.Showable) (hp : m.position = .at i) : m.Announced := by
  obtain ⟨shown, hs⟩ := hi
  exact ⟨i, shown, hp, hs, heading_eq hp hs⟩

theorem announcement_eq_heading (hp : m.position = .at i) (hi : i.Showable) (limit : Option Int) :
    (m.withConsole c).announcement { trace := true, limit } i = .ok m.heading.toArray := by
  obtain ⟨shown, hs⟩ := hi
  rw [heading_eq hp hs]
  simp only [announcement, traceLines, hs]
  rfl

/-- Neither a counter out of range nor a used up budget is an attempt. -/
theorem uncounted_ofMachine {e : MachineError} (h : ∀ f pc i, e ≠ .fault f pc i) :
    uncounted (.error (.ofMachine e)) = 0 := by
  rw [Failure.ofMachine_eq]
  split
  · cases e with
    | fault f pc i => exact absurd rfl (h f pc i)
    | counterOutOfRange pc => rfl
    | stepLimit limit pc i => rfl
  · rfl

theorem turn_traced {limit : Option Int} {start : Nat}
    (h : ∀ i, p.position = .at i → RunOptions.Allows { limit } ((p.steps : Int) - start) →
      i.Showable) (c : Array String) :
    TurnTraced c p (p.turn { limit } start)
      ((p.withConsole c).turn { trace := true, limit } start) := by
  have hposition : (p.withConsole c).position = p.position := rfl
  have hc := turnCase_turn { limit } start p
  generalize p.turn { limit } start = t at hc ⊢
  cases hc with
  | finished hp =>
    rw [(TurnCase.finished (hposition.trans hp)).turn_eq]
    exact .ended rfl
  | astray hp =>
    rw [(TurnCase.astray (hposition.trans hp)).turn_eq]
    exact .ended (uncounted_ofMachine nofun)
  | spent hp hn hle =>
    rw [(TurnCase.spent (o := { trace := true, limit }) (hposition.trans hp) hn hle).turn_eq]
    exact .ended (uncounted_ofMachine nofun)
  | unshowable _ _ hl => cases hl
  | faulted hp ha hl he =>
    cases hl
    have hlines := announcement_eq_heading (c := c) hp (h _ hp ha) limit
    have hstep := congrArg Prod.snd (StepCase.faulted hp he).step_eq
    rw [(TurnCase.faulted (o := { trace := true, limit }) (hposition.trans hp) ha hlines
      he).turn_eq]
    refine .failed rfl (announced_of_position (h _ hp ha) hp) ?_ rfl ?_
    · rw [hstep, print_empty]
    · rw [said_of_fault hp he, List.append_nil]
      rfl
  | @obeyed i _ e hp ha hl he =>
    cases hl
    have hlines := announcement_eq_heading (c := c) hp (h _ hp ha) limit
    have hstep := (StepCase.obeyed hp he).step_eq
    rw [(TurnCase.obeyed (o := { trace := true, limit }) (hposition.trans hp) ha hlines
      he).turn_eq]
    refine .next (announced_of_position (h _ hp ha) hp) ?_ (steps_apply _ _) ?_
    · rw [hstep, print_empty]
    · rw [said_of_effect hp he, print_empty]
      have happly := apply_console e { p with pc := p.pc + 1, steps := p.steps + 1 }
        (c ++ p.heading.toArray)
      refine Eq.trans happly ?_
      rw [withConsole, Array.append_assoc, List.append_toArray p.heading (decimals e.sent)]

theorem toList_console_step (m : Machine) :
    m.step.2.console.toList = m.console.toList ++ m.said := by
  obtain ⟨_, printed, a⟩ := advances_step m
  rw [said_eq a.console_eq, a.console_eq]

theorem Traced.ended (c : Array String) (r : Except Failure Unit) (p : Machine) :
    Traced c p 0 (r, p) (r, p.withConsole c) where
  result_eq := rfl
  after_eq := rfl
  rest_eq := rfl
  untraced_console := (List.append_nil _).symm
  traced_console := (List.append_nil _).symm
  announced _ hj := absurd hj (Nat.not_lt_zero _)

/-- One attempt more, before the others. -/
theorem Traced.cons {n : Nat} {x y : Except Failure Unit × Machine} (hp : p.Announced)
    (h : Traced (c ++ (p.heading ++ p.said).toArray) p.step.2 n x y) : Traced c p (n + 1) x y where
  result_eq := h.result_eq
  after_eq := h.after_eq
  rest_eq := h.rest_eq
  untraced_console := by
    rw [h.untraced_console, toList_console_step, List.append_assoc]
    rfl
  traced_console := by
    rw [h.traced_console, Array.toList_append, List.append_assoc]
    rfl
  announced j hj := by
    cases j with
    | zero => exact hp
    | succ j => exact h.announced j (Nat.lt_of_succ_lt_succ hj)

theorem runFor_traced {limit : Option Int} {start : Nat} (ht : ∀ i ∈ p.program, i.TextRemark)
    (hs : ∀ k pk, ¬ ComesToLong limit start k p pk) (c : Array String) (rounds : Nat) :
    Option.Rel (EndTraced c p) (runFor { limit } start rounds p)
      (runFor { trace := true, limit } start rounds (p.withConsole c)) := by
  -- for every console, since what a round prints is on the console of the next one
  induction rounds generalizing p c with
  | zero => exact .none
  | succ rounds ih =>
    have hturn := turn_traced (fun i hp ha => showable_of_not_comesToLong ht (hs 0 p) hp ha) c
    unfold runFor
    generalize p.turn { limit } start = t, (p.withConsole c).turn { trace := true, limit } start = u
      at hturn ⊢
    cases hturn with
    | @ended r hr => exact .some ⟨0, congrArg (p.steps + ·) hr, .ended c r p⟩
    | failed hr hp hstep hsteps hq =>
      subst hq hstep
      refine .some ⟨1, ?_, .cons hp (.ended _ _ _)⟩
      rw [hr, hsteps]
    | @next p' _ hp hstep hsteps hq =>
      subst hq
      obtain rfl : p.step.2 = p' := congrArg Prod.snd hstep
      have hs' : ∀ k pk, ¬ ComesToLong limit start k p.step.2 pk := by
        rintro k pk ⟨hk, hlong⟩
        exact hs (k + 1) pk ⟨.cons hstep hk, hlong⟩
      have hrest := ih (by rwa [program_step]) hs' (c ++ (p.heading ++ p.said).toArray)
      dsimp only
      generalize runFor { limit } start rounds p.step.2 = x, runFor { trace := true, limit } start
        rounds (p.step.2.withConsole (c ++ (p.heading ++ p.said).toArray)) = y at hrest ⊢
      cases hrest with
      | none => exact .none
      | some hend =>
        obtain ⟨n, hn, hend⟩ := hend
        exact .some ⟨n + 1, by omega, hend.cons hp⟩

/-- At an operand of too many digits a traced execution fails, before the instruction is obeyed. -/
theorem runFor_of_long {limit : Option Int} {start k : Nat} {pk : Machine}
    (ht : ∀ i ∈ p.program, i.TextRemark) (hlong : ComesToLong limit start k p pk)
    (hfirst : ∀ j pj, j < k → ¬ ComesToLong limit start j p pj) (c : Array String) (rest : Nat) :
    runFor { trace := true, limit } start (k + rest + 1) (p.withConsole c) =
      some (.error (.unshowable .tooManyDigits),
        pk.withConsole (c ++ (transcript true k p).toArray)) := by
  obtain ⟨hk, ha, i, hp, hi⟩ := hlong
  -- each of the steps before the operand is a round of the traced execution
  induction hk generalizing c with
  | @refl p =>
    have hposition : (p.withConsole c).position = .at i := hp
    have hlines : (p.withConsole c).announcement { trace := true, limit } i =
        .error .tooManyDigits := by
      simp only [announcement, traceLines, shown_of_not_shortOperands hi]
      rfl
    have hcase : TurnCase { trace := true, limit } start (p.withConsole c)
        (.stop (.error (.unshowable .tooManyDigits)) (p.withConsole c)) :=
      .unshowable hposition ha hlines
    rw [runFor, hcase.turn_eq]
    simp [transcript, withConsole]
  | @cons k p p₁ pk hs hk ih =>
    have hsteps : (pk.steps : Int) = p.steps + (k + 1 : Nat) := by
      have := (Steps.cons hs hk).steps_eq
      omega
    -- a budget that allows a later step allows this one
    have ha₀ : RunOptions.Allows { limit } ((p.steps : Int) - start) := by
      intro n hn
      have hlt := ha n hn
      omega
    have hnext : p.turn { limit } start = .next p₁ := by
      cases step_eq_iff.1 hs with
      | obeyed hat he =>
        have hturn := (TurnCase.obeyed (o := { limit }) hat ha₀ rfl he).turn_eq
        rwa [print_empty] at hturn
    have hturn := turn_traced (fun i hp ha =>
      showable_of_not_comesToLong ht (hfirst 0 p (Nat.succ_pos k)) hp ha) c
    rw [hnext] at hturn
    rw [show k + 1 + rest + 1 = (k + rest + 1) + 1 by omega, runFor]
    generalize (p.withConsole c).turn { trace := true, limit } start = u at hturn ⊢
    cases hturn with
    | next _ _ _ hq =>
      subst hq
      have hprogram : p₁.program = p.program := (Steps.step_inv hs).2.2
      have hfirst' : ∀ j pj, j < k → ¬ ComesToLong limit start j p₁ pj := by
        rintro j pj hj ⟨hjs, hjlong⟩
        exact hfirst (j + 1) pj (Nat.succ_lt_succ hj) ⟨.cons hs hjs, hjlong⟩
      have hrun := ih (by rwa [hprogram]) hfirst' (c ++ (p.heading ++ p.said).toArray) ha hp
      dsimp only
      rw [hrun, transcript, congrArg Prod.snd hs]
      simp

/-- What both have printed, if the untraced one is known to end after `n` attempts. -/
theorem consoles_of_rel {n : Nat} {x y : Option (Except Failure Unit × Machine)}
    (h : Option.Rel (EndTraced c p) x y)
    (hx : x.map (fun x => x.2.steps + uncounted x.1) = some (p.steps + n)) :
    x.map (fun x => x.2.console.toList) = some (p.console.toList ++ transcript false n p) ∧
      y.map (fun y => y.2.console.toList) = some (c.toList ++ transcript true n p) := by
  cases h with
  | none => cases hx
  | some hend =>
    obtain ⟨k, hk, hend⟩ := hend
    obtain rfl : k = n := Nat.add_left_cancel (hk.symm.trans (Option.some.inj hx))
    exact ⟨congrArg some hend.untraced_console, congrArg some hend.traced_console⟩

theorem result_perform_execute (files : FileTree) (rounds : Nat) (o : RunOptions) (m : Machine) :
    (m.perform files rounds (.execute o)).map Performed.result =
      (m.execute o rounds).map fun x =>
        x.1.map fun _ => .output (x.2.output.toList.map Int32.toInt) := by
  rw [perform, Option.map_map]
  rfl

/-- For a machine with the program of a text, or with one of which every remark is a text, a traced
execution is an untraced one, whatever its budget, unless it comes to an operand of too many digits:
it ends after the same number of rounds, if it does, with the same result and in the same state, but
for what has been printed. An untraced one prints what the instructions print that it attempts, one
after the other. A traced one prints this and, before each of them, its heading: the address and the
instruction, and the registers as they are then. An instruction that fails has been attempted; one
before which the budget is used up has not. At the first operand of too many digits the traced one
fails, and the instruction is neither announced nor obeyed. -/
theorem tracing_only_announces {m : Machine} (h : m.Traceable) (limit : Option Int) :
    ((∀ k mk, ¬ ComesToLong limit m.steps k m mk) →
      (∀ rounds, Option.Rel (EndTraced m.console m) (m.execute { limit } rounds)
        (m.execute { trace := true, limit } rounds)) ∧
      ∀ files rounds,
        (m.perform files rounds (.execute { limit })).map Performed.result =
          (m.perform files rounds (.execute { trace := true, limit })).map Performed.result) ∧
    ∀ k mk, ComesToLong limit m.steps k m mk →
      (∀ j mj, j < k → ¬ ComesToLong limit m.steps j m mj) → ∀ rounds, k < rounds →
      m.execute { trace := true, limit } rounds = some (.error (.unshowable .tooManyDigits),
        mk.withConsole (m.console ++ (transcript true k m).toArray)) := by
  refine ⟨fun hs => ?_, fun k mk hlong hfirst rounds hk => ?_⟩
  · have hends : ∀ rounds, Option.Rel (EndTraced m.console m) (m.execute { limit } rounds)
        (m.execute { trace := true, limit } rounds) :=
      runFor_traced h.textRemark hs m.console
    refine ⟨hends, fun files rounds => ?_⟩
    rw [result_perform_execute, result_perform_execute]
    have hx := hends rounds
    generalize m.execute { limit } rounds = x, m.execute { trace := true, limit } rounds = y
      at hx ⊢
    cases hx with
    | none => rfl
    | some hend =>
      obtain ⟨n, -, hend⟩ := hend
      rw [Option.map_some, Option.map_some, hend.rest_eq, hend.result_eq]
      rfl
  · obtain ⟨rest, rfl⟩ : ∃ rest, rounds = k + rest + 1 := ⟨rounds - k - 1, by omega⟩
    exact runFor_of_long h.textRemark hlong hfirst m.console rest

/-- An execution that prints, passes over a remark and fails, and the same with a budget that is
used up before the remark. -/
theorem tracing_only_announces_fault :
    let m : Machine := (Machine.assemble
      ["a lin 0 5", "b out 0", "c  see below ", "d div 0 0 1", "e out 0"]
      { registers := .zeros 2 }).2
    let first := ["[PC=0] EXEC: a: lin 0 5", "  REGISTERS: 0=0 1=0",
      "[PC=1] EXEC: b: out 0", "  REGISTERS: 0=5 1=0", "5"]
    let second := ["[PC=2] EXEC: c: see below", "  REGISTERS: 0=5 1=0",
      "[PC=3] EXEC: d: div 0 0 1", "  REGISTERS: 0=5 1=0"]
    m.Traceable ∧
      (m.execute {} 9).map (fun x => x.2.console.toList) = some ["5"] ∧
      (m.execute { trace := true } 9).map (fun x => x.2.console.toList) =
        some (first ++ second) ∧
      (m.execute { trace := true, limit := some 2 } 9).map (fun x => x.2.console.toList) =
        some first := by
  intro m first second
  have hm : m.Traceable := .assembled rfl
  have hshort : ∀ limit k mk, ¬ ComesToLong limit m.steps k m mk := fun limit k _ =>
    (showable_assemble _ _).not_comesToLong limit m.steps k
  obtain ⟨hunlimited, -⟩ := (tracing_only_announces hm none).1 (hshort none)
  obtain ⟨hlimited, -⟩ := (tracing_only_announces hm (some 2)).1 (hshort (some 2))
  have hfour : (m.execute {} 9).map (fun x => x.2.steps + uncounted x.1) = some 4 := by
    decide +kernel
  have htwo : (m.execute { limit := some 2 } 9).map (fun x => x.2.steps + uncounted x.1) =
      some 2 := by decide +kernel
  obtain ⟨hsaid, htraced⟩ := consoles_of_rel (n := 4) (hunlimited 9) (by rw [hfour]; decide +kernel)
  obtain ⟨-, hstopped⟩ := consoles_of_rel (n := 2) (hlimited 9) (by rw [htwo]; decide +kernel)
  refine ⟨hm, hsaid.trans ?_, htraced.trans ?_, hstopped.trans ?_⟩
  · decide +kernel
  · decide +kernel
  · decide +kernel

/-- The only instruction loads an integer of too many digits. That wraps, and the untraced execution
comes to its end; the traced one fails before it. -/
theorem long_operand_stops_tracing :
    let m : Machine :=
      ({ registers := .zeros 1 } : Machine).load [⟨"", .lin, [.int 0, .int Numeral.leastLong]⟩]
    m.Traceable ∧
      (∃ m', m.execute {} 2 = some (.ok (), m') ∧ m'.pc = 1 ∧ m'.steps = 1) ∧
      ∃ f m', m.execute { trace := true } 2 = some (.error f, m') ∧ m'.pc = 0 ∧ m'.steps = 0 := by
  intro m
  let program : List Instruction := [⟨"", .lin, [.int 0, .int Numeral.leastLong]⟩]
  have htext : ∀ i ∈ program, i.TextRemark := by simp [program, Instruction.TextRemark]
  have hm : m.Traceable := .loaded htext rfl
  have hlong : ¬ Instruction.ShortOperands ⟨"", .lin, [.int 0, .int Numeral.leastLong]⟩ :=
    fun hs => Numeral.not_short_leastLong (hs nofun (.int Numeral.leastLong) (by simp))
  have hcomes : ComesToLong none m.steps 0 m m := ⟨.refl, nofun, _, rfl, hlong⟩
  have hrun : m.execute { trace := true } 2 = some (.error (.unshowable .tooManyDigits), m) :=
    runFor_of_long hm.textRemark hcomes nofun m.console 1
  exact ⟨hm, ⟨_, rfl, rfl, rfl⟩, _, _, hrun, rfl, rfl⟩

end Machine
end SimpleMachine
