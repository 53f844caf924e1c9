import SimpleMachine.Proofs.Effects
import SimpleMachine.Proofs.WellFormed

/-!
# SimpleMachine.Proofs.Showing

An assembled program can be shown, and so can everything that goes wrong in its execution.

* `Instruction.Showable i`: the instruction has a shown form. It has one exactly when it is no remark
  that is an integer, and has no operand of too many digits (`showable_iff`).
* `Machine.Showable m`: every instruction of the program has a shown form. A machine that has been
  given the program of a text is of this kind (`showable_of_assemble`), and so it stays while it
  runs.
* `exists_programLines`: then the program as a whole can be shown.
* `failure_of_endsUnder`: an execution of it fails with an error that the machine raises, traced or
  not, and the failure has a text.
-/

namespace SimpleMachine

open Source

def Instruction.Showable (i : Instruction) : Prop := ∃ text, i.shown = .ok text

def Machine.Showable (m : Machine) : Prop := ∀ i ∈ m.program, i.Showable

/-- The remark of a no-op, if it has one, is a text. -/
def Instruction.TextRemark (i : Instruction) : Prop :=
  i.opcode = .noop → ∀ v, i.operands.head? ≠ some (.int v)

/-- The operands of anything but a no-op have no more digits than can be shown. -/
def Instruction.ShortOperands (i : Instruction) : Prop :=
  i.opcode ≠ .noop → ∀ o ∈ i.operands, o.Short

theorem forall_exists_of_mapM {α β ε : Type} {f : α → Except ε β} {as : List α} {bs : List β}
    (h : as.mapM f = .ok bs) : ∀ a ∈ as, ∃ b, f a = .ok b := by
  induction as generalizing bs with
  | nil => nofun
  | cons a as ih =>
    rw [List.mapM_cons] at h
    obtain ⟨b, hb, h⟩ := bind_eq_ok h
    obtain ⟨rest, hrest, -⟩ := bind_eq_ok h
    exact List.forall_mem_cons.2 ⟨⟨b, hb⟩, ih hrest⟩

theorem showable_iff_body {i : Instruction} : i.Showable ↔ ∃ body, i.shownBody = .ok body := by
  unfold Instruction.Showable Instruction.shown
  cases i.shownBody with
  | ok body => exact iff_of_true ⟨_, rfl⟩ ⟨_, rfl⟩
  | error e => exact iff_of_false nofun nofun

theorem showable_iff {i : Instruction} : i.Showable ↔ i.TextRemark ∧ i.ShortOperands := by
  rw [showable_iff_body]
  by_cases hop : i.opcode = .noop
  · obtain ⟨label, op, operands⟩ := i
    subst hop
    have hshort : (⟨label, .noop, operands⟩ : Instruction).ShortOperands := fun h => absurd rfl h
    rcases operands with - | ⟨v | text, rest⟩
    · exact iff_of_true ⟨_, rfl⟩ ⟨nofun, hshort⟩
    · exact iff_of_false nofun fun h => h.1 rfl v rfl
    · exact iff_of_true ⟨_, rfl⟩ ⟨nofun, hshort⟩
  · rw [Instruction.shownBody_of_ne_noop hop]
    constructor
    · rintro ⟨body, h⟩
      refine ⟨fun h' => absurd h' hop, fun _ o ho => ?_⟩
      cases hm : i.operands.mapM Operand.shown with
      | error e => rw [hm] at h; cases h
      | ok texts =>
        obtain ⟨text, ht⟩ := forall_exists_of_mapM hm o ho
        exact Operand.short_of_shown ht
    · rintro ⟨-, hshort⟩
      exact ⟨_, by rw [Operand.mapM_shown (hshort hop)]; rfl⟩

/-- Nothing else than a number can have too many digits, so this is why there is nothing to show. -/
theorem shown_of_not_shortOperands {i : Instruction} (h : ¬ i.ShortOperands) :
    i.shown = .error .tooManyDigits := by
  have hop : i.opcode ≠ .noop := fun hop => h fun hne => absurd hop hne
  have hbody := Instruction.shownBody_of_ne_noop hop
  rw [Instruction.shown]
  cases hm : i.operands.mapM Operand.shown with
  | error e => rw [hbody, hm, Operand.mapM_shown_eq_error hm]; rfl
  | ok texts =>
    refine absurd (fun _ o ho => ?_) h
    obtain ⟨text, ht⟩ := forall_exists_of_mapM hm o ho
    exact Operand.short_of_shown ht

theorem short_of_wellFormed {i : Instruction} (h : i.WellFormed) : ∀ o ∈ i.operands, o.Short := by
  have hfits : ∀ v, FitsRegister v → (Operand.int v).Short := fun v => Numeral.short_of_mem_range
  have hword : ∀ text, (Operand.word text).Short := fun _ => trivial
  obtain ⟨label, op, operands⟩ := i
  have hshape : HasShape op operands := h.shape
  cases hshape with
  | arithmetic _ hd hl hr => simpa using ⟨hfits _ hd, hfits _ hl, hfits _ hr⟩
  | lin hd hv => simpa using ⟨hfits _ hd, hfits _ hv⟩
  | out hs => simpa using hfits _ hs
  | bnz hs _ => simpa using ⟨hfits _ hs, hword _⟩
  | noop => simpa using hword _

theorem showable_of_wellFormed {i : Instruction} (h : i.WellFormed) : i.Showable := by
  refine showable_iff.2 ⟨fun hop v hv => ?_, fun _ => short_of_wellFormed h⟩
  obtain ⟨label, op, operands⟩ := i
  have hshape : HasShape op operands := h.shape
  cases hshape with
  | noop => cases hv
  | arithmetic hop' _ _ _ => rcases hop' with rfl | rfl | rfl | rfl <;> cases hop
  | lin _ _ => cases hop
  | out _ => cases hop
  | bnz _ _ => cases hop

namespace Machine

variable {m m' : Machine}

theorem showable_of_assemble {lines : List String} (h : m.assemble lines = (.ok (), m')) :
    m'.Showable := by
  intro i hi
  obtain ⟨-, rfl⟩ := assemble_eq_ok_iff.1 h
  rw [program_load, List.mem_toArray, List.mem_filterMap] at hi
  obtain ⟨line, -, hl⟩ := hi
  exact showable_of_wellFormed (wellFormed_of_lineInstruction? hl)

theorem Showable.congr (h : m.Showable) (hp : m'.program = m.program) : m'.Showable := by
  rw [Showable, hp]
  exact h

theorem Showable.at_position {i : Instruction} (h : m.Showable) (hp : m.position = .at i) :
    i.Showable := by
  obtain ⟨-, hi⟩ := position_eq_at_iff.1 hp
  exact h i (Array.mem_of_getElem? hi)

theorem exists_mapM_shown {program : List Instruction} (h : ∀ i ∈ program, i.Showable) :
    ∃ lines, program.mapM Instruction.shown = .ok lines := by
  induction program with
  | nil => exact ⟨[], rfl⟩
  | cons i program ih =>
    obtain ⟨line, hline⟩ := h i List.mem_cons_self
    obtain ⟨lines, hlines⟩ := ih fun j hj => h j (List.mem_cons_of_mem i hj)
    exact ⟨line :: lines, by rw [List.mapM_cons, hline, hlines]; rfl⟩

theorem exists_programLines (h : m.Showable) : ∃ lines, m.programLines = .ok lines :=
  exists_mapM_shown fun i hi => h i (Array.mem_toList_iff.1 hi)

/-- Where there is an instruction to show, the lines of the trace can be made. -/
theorem exists_announcement {i : Instruction} (h : i.Showable) (o : RunOptions) (m : Machine) :
    ∃ lines, m.announcement o i = .ok lines := by
  obtain ⟨text, ht⟩ := h
  unfold announcement traceLines
  rw [ht]
  by_cases hb : o.trace = true
  · rw [if_pos hb]; exact ⟨_, rfl⟩
  · rw [if_neg hb]; exact ⟨_, rfl⟩

theorem exists_located {i? : Option Instruction} (h : ∀ i, i? = some i → i.Showable)
    (message place : String) : ∃ text, MachineError.located message place i? = .ok text := by
  cases i? with
  | none => exact ⟨_, rfl⟩
  | some i =>
    obtain ⟨text, ht⟩ := h i rfl
    exact ⟨_, by rw [MachineError.located, ht]; rfl⟩

/-- An error that is raised has a text, whether or not its number can be shown. -/
theorem exists_message {e : MachineError} (h : ∀ i, e.instruction? = some i → i.Showable) :
    ∃ text, (Failure.ofMachine e).message = .ok text := by
  by_cases hs : e.Sayable
  · obtain ⟨cause, hc⟩ := MachineError.exists_cause hs
    obtain ⟨text, ht⟩ := exists_located h cause (Numeral.text e.pc)
    rw [Failure.ofMachine_of_sayable hs]
    refine ⟨text, ?_⟩
    rw [Failure.message, MachineError.message, hc]
    exact ht
  · rw [Failure.ofMachine_of_not_sayable hs]
    exact ⟨_, rfl⟩

theorem failure_of_turn {o : RunOptions} {start : Nat} {f : Failure} (h : m.Showable)
    (ht : m.turn o start = .stop (.error f) m') :
    ∃ e, f = .ofMachine e ∧ ∃ text, f.message = .ok text := by
  have hat : ∀ {i}, m.position = .at i → ∀ j, some i = some j → j.Showable := by
    rintro i hp _ ⟨⟩
    exact h.at_position hp
  cases turn_eq_iff.1 ht with
  | astray _ => exact ⟨_, rfl, exists_message nofun⟩
  | spent hp _ _ => exact ⟨_, rfl, exists_message (hat hp)⟩
  | @faulted i _ f hp _ _ _ =>
    have hmessage := exists_message (e := .fault f m.pc i) (hat hp)
    exact ⟨.fault f m.pc i, rfl, hmessage⟩
  | unshowable hp _ he =>
    obtain ⟨lines, hl⟩ := exists_announcement (h.at_position hp) o m
    rw [hl] at he
    cases he

/-- An execution of a program that can be shown fails, if it does, with an error that has a text. -/
theorem failure_of_endsUnder {o : RunOptions} {f : Failure} (h : m.Showable)
    (he : EndsUnder o m (.error f) m') :
    ∃ e, f = .ofMachine e ∧ ∃ text, f.message = .ok text := by
  obtain ⟨rounds, hx⟩ := he
  obtain ⟨k, mk, -, hrounds, hstop⟩ := runFor_eq_some_iff_rounds.1 hx
  exact failure_of_turn (h.congr hrounds.program_eq) hstop

end Machine
end SimpleMachine
