import SimpleMachine.CommandLine.Command
import SimpleMachine.Proofs.Effects
import SimpleMachine.Proofs.Showing

/-!
# SimpleMachine.Proofs.Preparation

What a command line comes to before its program is executed.

* `machine_of_value`: the machine of a command line has a bank of zeros of the given size, to which the
  assignments are made one after the other; `fresh_of_machine`: all else is as in any new machine.
* `Prepared i path contents p`: the seven outcomes of `prepare`, with the conditions of each. The path to
  report and the detail of an input error have an influence on what is reported only.
* `run_of_parse`: a command line that is understood is prepared and then executed, if it gets that far.
-/

namespace SimpleMachine
namespace CommandLine

open Machine

/-! ## Building the machine -/

def Settings.mode (s : Settings) : Source.Mode := if s.strict then .strict else .lenient

def assignRegister (m : Machine) : Setting (Int × Int) → Except CommandFailure Machine
  | .dropped => .error .droppedAssignment
  | .value (index, v) => (m.setRegister index v).mapError CommandFailure.request

theorem machine_of_dropped {i : Invocation} (h : i.settings.registers = .dropped) :
    i.machine = .error .droppedCount := by
  simp only [Invocation.machine, h]

theorem machine_of_value {i : Invocation} {count : Int} (h : i.settings.registers = .value count) :
    i.machine = (Machine.build 0 count i.settings.mode).mapError CommandFailure.request >>=
      i.settings.assignments.foldlM assignRegister := by
  simp only [Invocation.machine, h]
  rfl

/-- Without a bank there is no machine. -/
theorem machine_of_no_bank {i : Invocation} {count : Int} {e : BankError}
    (h : i.settings.registers = .value count) (hb : Bank.ofCount count = .error e) :
    i.machine = .error (.request (.ofBank e)) := by
  rw [machine_of_value h, build, hb]
  rfl

theorem assignments_touch {assignments : List (Setting (Int × Int))} {m m' : Machine}
    (h : assignments.foldlM assignRegister m = .ok m') :
    ∃ registers, m' = { m with registers } := by
  induction assignments generalizing m with
  | nil => cases h; exact ⟨_, rfl⟩
  | cons a assignments ih =>
    rw [List.foldlM_cons] at h
    obtain ⟨m₁, ha, h⟩ := bind_eq_ok h
    obtain ⟨registers, rfl⟩ := ih h
    cases a with
    | dropped => cases ha
    | value p =>
      simp only [assignRegister] at ha
      cases hs : m.setRegister p.1 p.2 with
      | error e => rw [hs] at ha; cases ha
      | ok m₂ =>
        rw [hs] at ha; cases ha
        obtain ⟨slot, rfl⟩ := setRegister_eq_ok hs
        exact ⟨registers, rfl⟩

/-- The machine of a command line has neither run nor printed anything. -/
theorem fresh_of_machine {i : Invocation} {m : Machine} (h : i.machine = .ok m) :
    ∃ registers, m = { registers, mode := i.settings.mode } := by
  cases hr : i.settings.registers with
  | dropped => rw [machine_of_dropped hr] at h; cases h
  | value count =>
    rw [machine_of_value hr] at h
    obtain ⟨m₀, hb, h⟩ := bind_eq_ok h
    obtain ⟨registers, rfl⟩ := assignments_touch h
    unfold build at hb
    cases hc : Bank.ofCount count with
    | error e => rw [hc] at hb; cases hb
    | ok zeros => rw [hc] at hb; cases hb; exact ⟨registers, rfl⟩

/-! ## Before the execution -/

inductive Prepared (i : Invocation) (path : String) (contents : Except OpenError ByteArray) :
    Except Transcript Job → Prop where
  | unbuilt {f : CommandFailure} :
      i.machine = .error f → Prepared i path contents (.error (.failed [] [] f))
  | unnamed {m : Machine} {log : List String} :
      i.machine = .ok m → contents = .error .nulInPath →
      Prepared i path contents (.error (.failed [] log (.request .nulInPath)))
  | looped {m : Machine} :
      i.machine = .ok m → contents = .error .linkLoop →
      Prepared i path contents (.error (.failed [] [] (.linkLoop path)))
  | unreadable {m : Machine} {stderr : List String} :
      i.machine = .ok m → linesOf? contents "utf-8" = none → contents ≠ .error .nulInPath →
      contents ≠ .error .linkLoop →
      Prepared i path contents (.error { stderr, ending := .exit 1 })
  | refused {m m' : Machine} {lines log : List String} {f : Failure} :
      i.machine = .ok m → linesOf? contents "utf-8" = some lines →
      m.assemble lines = (.error f, m') →
      Prepared i path contents (.error (.failed [] log (.request f)))
  | unlimited {m m' : Machine} {lines heading log : List String} {f : CommandFailure} :
      i.machine = .ok m → linesOf? contents "utf-8" = some lines →
      m.assemble lines = (.ok (), m') → i.heading m' = .ok heading → i.runOptions m' = .error f →
      Prepared i path contents (.error (.failed heading log f))
  | ready {m m' : Machine} {lines heading log : List String} {options : RunOptions} :
      i.machine = .ok m → linesOf? contents "utf-8" = some lines →
      m.assemble lines = (.ok (), m') → i.heading m' = .ok heading →
      i.runOptions m' = .ok options →
      Prepared i path contents
        (.ok { machine := m', options, heading, log, printRegisters := i.settings.printRegisters })

/-- A program that can be shown has a heading. -/
theorem exists_heading {m : Machine} (i : Invocation) (h : m.Showable) :
    ∃ heading, i.heading m = .ok heading := by
  obtain ⟨lines, hl⟩ := exists_programLines h
  unfold Invocation.heading
  rw [hl]
  by_cases hd : i.settings.dump = true
  · rw [if_pos hd]; exact ⟨_, rfl⟩
  · rw [if_neg hd]; exact ⟨[], rfl⟩

theorem checkPath_of_ne {contents : Except OpenError ByteArray} (h : contents ≠ .error .linkLoop)
    (path : String) : Invocation.checkPath path contents = .ok () := by
  unfold Invocation.checkPath
  split
  · exact absurd rfl h
  · rfl

theorem prepared_prepare (i : Invocation) (path : String) (contents : Except OpenError ByteArray)
    (detail : String) : Prepared i path contents (i.prepare path contents detail) := by
  cases hm : i.machine with
  | error f =>
    simp only [Invocation.prepare, hm, Except.mapError, bind, Except.bind]
    exact .unbuilt hm
  | ok m =>
    simp only [Invocation.prepare, hm, Except.mapError, bind, Except.bind]
    cases hl : linesOf? contents "utf-8" with
    | none =>
      by_cases hloop : contents = .error .linkLoop
      · subst hloop
        exact .looped hm rfl
      by_cases hc : contents = .error .nulInPath
      · subst hc
        exact .unnamed hm rfl
      · simp only [checkPath_of_ne hloop, result_readContents_of_no_lines hl hc nofun]
        exact .unreadable hm hl hc hloop
    | some lines =>
      have hloop : contents ≠ .error .linkLoop := by
        rintro rfl
        cases hl
      obtain ⟨hr, hmachine⟩ := readContents_of_lines (m := m) path hl
      simp only [checkPath_of_ne hloop]
      cases ha : m.assemble lines with
      | mk r m' =>
        rw [ha] at hr hmachine
        cases r with
        | error f =>
          simp only [hr, Except.map]
          exact .refused hm hl ha
        | ok u =>
          obtain ⟨heading, hh⟩ := exists_heading i (showable_of_assemble ha)
          simp only [hr, Except.map, hmachine, hh]
          cases ho : i.runOptions m' with
          | error f => exact .unlimited hm hl ha hh ho
          | ok options => exact .ready hm hl ha hh ho

/-- A command that has been prepared is over or is executed. -/
def proceed (p : Except Transcript Job) (rounds : Nat) : Option Transcript :=
  match p with
  | .error t => some t
  | .ok job => job.run rounds

/-- A command line that is understood is carried out in two parts. -/
theorem run_of_parse {arguments : List String} {i : Invocation}
    (h : Invocation.parse arguments = .ok i) (files : FileTree) (directory detail : String)
    (rounds : Nat) :
    ∃ p, Prepared i (i.fullPath directory) (files.findShortened i.program) p ∧
      run files directory detail rounds arguments = proceed p rounds := by
  refine ⟨i.prepare _ (files.findShortened i.program) detail, prepared_prepare i _ _ _, ?_⟩
  unfold run
  rw [h]
  rfl

end CommandLine
end SimpleMachine
