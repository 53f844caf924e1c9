import SimpleMachine.Proofs.Arguments
import SimpleMachine.Proofs.Assignments
import SimpleMachine.Proofs.ExitCodes
import SimpleMachine.Run

/-!
# SimpleMachine.Proofs.Agreement

A command line and `Setup.runFile` run the same machine.

* `FileTree.Realizable`, `PlainName`: the trees that a file system can hold and the names that name
  nothing but an entry of the directory. For them it does not matter how a path is followed, unless
  the entry is a link that leads back to itself (`findShortened_eq_find`).
* `Choice.setUp`: what an option contributes to the setup of a run.
* `Settings.Describes`: the settings of a command line and a setup say the same. Then both build the
  same machine or fail alike (`machine_of_describes`), although one keeps every assignment and the
  other the last one to each register.
* `Agrees`: what a transcript and a report have in common.
* `run_agrees_with_runFile`: a command line in which every option is written in full agrees with the run
  of its setup.
-/

namespace SimpleMachine

/-! ## Plain names -/

/-- A tree that a file system can hold: the root is a directory, and no file has a path that is too
long to be opened. -/
structure FileTree.Realizable (t : FileTree) : Prop where
  root : t.entry? [] = some .directory
  openable : ∀ place bytes, t.entry? place = some (.file bytes) →
    ("/".intercalate place).utf8ByteSize ≤ FileTree.maxPathBytes

/-- The name of an entry of the directory that cannot be taken for an option. -/
structure PlainName (name : String) : Prop where
  nonempty : name ≠ ""
  positional : name.startsWith "-" = false
  single : '/' ∉ name.toList
  noNul : '\x00' ∉ name.toList
  notHere : name ≠ "."
  notBack : name ≠ ".."

namespace PlainName

variable {name : String}

theorem pathNames_eq (h : PlainName name) : pathNames name = [name] := by
  have hfold : ∀ cs : List Char, '/' ∉ cs → cs.foldr
      (fun c pieces => if c = '/' then ([], pieces.1 :: pieces.2) else (c :: pieces.1, pieces.2))
      (([] : List Char), ([] : List (List Char))) = (cs, []) := by
    intro cs hcs
    induction cs with
    | nil => rfl
    | cons c cs ih =>
      obtain ⟨hc, hrest⟩ := not_or.1 (mt List.mem_cons.2 hcs)
      rw [List.foldr_cons, ih hrest]
      exact if_neg (Ne.symm hc)
  simp only [pathNames, hfold _ h.single, List.map_cons, List.map_nil, String.ofList_toList]

theorem not_absolute (h : PlainName name) : name.startsWith "/" = false := by
  rw [String.startsWith_string_eq_false_iff]
  intro hp
  exact h.single (hp.subset (by simp))

theorem place?_eq (h : PlainName name) : FileTree.place? name = some [name] := by
  have hstay : ¬ (name = "" ∨ name = ".") := not_or.2 ⟨h.nonempty, h.notHere⟩
  simp only [FileTree.place?, h.not_absolute, h.pathNames_eq, FileTree.shorten, if_neg hstay,
    if_neg h.notBack, List.nil_append, Bool.false_eq_true, if_false]

theorem walk_eq (h : PlainName name) {files : FileTree} (hf : files.Realizable) :
    files.walk [] (pathNames name) = some [name] := by
  have hstay : ¬ (name = "" ∨ name = ".") := not_or.2 ⟨h.nonempty, h.notHere⟩
  simp only [h.pathNames_eq, FileTree.walk, hf.root, if_neg hstay, if_neg h.notBack,
    List.nil_append]

theorem runsIntoLoop_eq {files : FileTree} (hf : files.Realizable)
    (hloop : files.entry? [name] ≠ some .loop) : files.runsIntoLoop [] [name] = false := by
  simp only [FileTree.runsIntoLoop, hf.root, List.nil_append]
  unfold FileTree.runsIntoLoop
  cases he : files.entry? [name] with
  | none => rfl
  | some entry =>
    cases entry with
    | file bytes => rfl
    | directory => rfl
    | loop => exact absurd he hloop

/-- A plain name finds the same whichever way it is followed, unless it is a link that leads back to
itself. -/
theorem findShortened_eq_find (h : PlainName name) {files : FileTree} (hf : files.Realizable)
    (hloop : files.entry? [name] ≠ some .loop) : files.findShortened name = files.find name := by
  have hends : ¬ (some [name]).any (files.runsIntoLoop []) = true :=
    ne_true_of_eq_false (runsIntoLoop_eq hf hloop)
  rw [FileTree.findShortened, FileTree.find, if_neg h.noNul, if_neg h.noNul, h.place?_eq,
    if_neg hends]
  by_cases hlong : FileTree.maxPathBytes < name.utf8ByteSize
  · rw [if_pos (.inr (.inr hlong))]
    cases he : files.entry? [name] with
    | none => simp only [FileTree.contents, Option.bind_some, he]
    | some entry =>
      cases entry with
      | directory => simp only [FileTree.contents, Option.bind_some, he]
      | loop => exact absurd he hloop
      | file bytes =>
        have hshort := hf.openable _ _ he
        rw [String.intercalate_singleton] at hshort
        omega
  · have hopen : ¬ (name = "" ∨ name.startsWith "/" = true ∨
        FileTree.maxPathBytes < name.utf8ByteSize) := by
      rw [h.not_absolute]
      rintro (he | he | he)
      · exact h.nonempty he
      · cases he
      · exact hlong he
    rw [if_neg hopen, h.walk_eq hf]

end PlainName

/-! ## A run up to its execution -/

namespace Setup

/-- The machine with its program, or the report of a run that ends before the execution. -/
def ready (s : Setup) (files : FileTree) (path : String) : Except Report Machine :=
  match s.machine with
  | .error f => .error ⟨.error f, []⟩
  | .ok m =>
    let r := m.read files path
    match r.result with
    | .error f => .error ⟨.error f, r.machine.console.toList⟩
    | .ok false => .error ⟨.error (.assembly (.unreadableFile path)), r.machine.console.toList⟩
    | .ok true => .ok r.machine

variable {s : Setup} {files : FileTree} {path : String} {m m' : Machine}

theorem runFile_eq (s : Setup) (files : FileTree) (path : String) (rounds : Nat) :
    s.runFile rounds files path =
      match s.ready files path with
      | .error r => some r
      | .ok m => s.finish rounds m := by
  unfold runFile ready
  cases s.machine with
  | error f => rfl
  | ok m =>
    simp only
    cases (m.read files path).result with
    | error f => rfl
    | ok read => cases read <;> rfl

theorem ready_unbuilt {f : Failure} (h : s.machine = .error f) :
    s.ready files path = .error ⟨.error f, []⟩ := by
  simp only [ready, h]

theorem ready_unreadable (h : s.machine = .ok m) (hl : linesOf? (files.find path) "utf-8" = none)
    (hc : files.find path ≠ .error .nulInPath) :
    s.ready files path = .error ⟨.error (.assembly (.unreadableFile path)), m.console.toList⟩ := by
  have hr : (m.read files path).result = .ok false :=
    Machine.result_readContents_of_no_lines hl hc nofun
  have hm : (m.read files path).machine = m.unload := Machine.readContents_of_no_lines hl
  simp only [ready, h, hr, hm]
  rfl

theorem ready_refused {lines : List String} {f : Failure} (h : s.machine = .ok m)
    (hl : linesOf? (files.find path) "utf-8" = some lines) (ha : m.assemble lines = (.error f, m')) :
    s.ready files path = .error ⟨.error f, m'.console.toList⟩ := by
  obtain ⟨hr, hm⟩ := Machine.read_of_lines (m := m) hl
  rw [ha] at hr hm
  simp only [ready, h, hr, hm, Except.map]

theorem ready_of_lines {lines : List String} (h : s.machine = .ok m)
    (hl : linesOf? (files.find path) "utf-8" = some lines) (ha : m.assemble lines = (.ok (), m')) :
    s.ready files path = .ok m' := by
  obtain ⟨hr, hm⟩ := Machine.read_of_lines (m := m) hl
  rw [ha] at hr hm
  simp only [ready, h, hr, hm, Except.map]

end Setup

namespace CommandLine

open Machine

/-! ## Settings and setups -/

/-- What an option contributes to the setup of a run. -/
def Choice.setUp (s : Setup) : Choice → Setup
  | .registers n => { s with registerCount := n.value }
  | .set index v => { s with registers := s.registers ++ [(index.value, v.value)] }
  | .maxSteps n => { s with options := { s.options with limit := some n.value } }
  | .strict => { s with mode := .strict }
  | .trace => { s with options := { s.options with trace := true } }
  | .dump => s
  | .printRegisters => s
  | .verbose => s

/-- The settings of a command line and a setup say the same about the run. -/
structure Settings.Describes (st : Settings) (s : Setup) : Prop where
  registers : st.registers = .value s.registerCount
  assignments : st.assignments = s.registers.map .value
  limit : st.limit = s.options.limit.map .value
  trace : st.trace = s.options.trace
  mode : st.mode = s.mode

section Describing

variable {st : Settings} {s : Setup} {i : Invocation}

theorem describes_default : Settings.Describes {} {} := ⟨rfl, rfl, rfl, rfl, rfl⟩

theorem describes_settle (h : st.Describes s) (c : Choice) : (c.settle st).Describes (c.setUp s) := by
  cases c with
  | registers n => exact ⟨rfl, h.assignments, h.limit, h.trace, h.mode⟩
  | set index v =>
    refine ⟨h.registers, ?_, h.limit, h.trace, h.mode⟩
    simp only [Choice.settle, Choice.setUp, h.assignments, List.map_append, List.map_cons,
      List.map_nil]
  | maxSteps n => exact ⟨h.registers, h.assignments, rfl, h.trace, h.mode⟩
  | strict => exact ⟨h.registers, h.assignments, h.limit, h.trace, rfl⟩
  | trace => exact ⟨h.registers, h.assignments, h.limit, rfl, h.mode⟩
  | dump => exact ⟨h.registers, h.assignments, h.limit, h.trace, h.mode⟩
  | printRegisters => exact ⟨h.registers, h.assignments, h.limit, h.trace, h.mode⟩
  | verbose => exact ⟨h.registers, h.assignments, h.limit, h.trace, h.mode⟩

theorem describes_choices (h : st.Describes s) (choices : List Choice) :
    (choices.foldl Choice.settle st).Describes (choices.foldl Choice.setUp s) := by
  induction choices generalizing st s with
  | nil => exact h
  | cons c choices ih => exact ih (describes_settle h c)

theorem assignments_of_values (pairs : List (Int × Int)) (m : Machine) :
    (pairs.map Setting.value).foldlM assignRegister m =
      (m.assignAll pairs).mapError CommandFailure.request := by
  induction pairs generalizing m with
  | nil => rfl
  | cons p pairs ih =>
    rw [List.map_cons, List.foldlM_cons, assignAll_cons, assignRegister]
    cases m.setRegister p.1 p.2 with
    | error f => rfl
    | ok m' => exact ih m'

/-- The same machine is built, or the failure is the same. -/
theorem machine_of_describes (h : i.settings.Describes s) :
    i.machine = s.machine.mapError CommandFailure.request := by
  rw [machine_of_value h.registers, h.assignments, h.mode, Setup.machine]
  cases Machine.build 0 s.registerCount s.mode with
  | error f => rfl
  | ok m =>
    show (s.registers.map Setting.value).foldlM assignRegister m =
      (m.assignAll (lastValues s.registers)).mapError CommandFailure.request
    rw [assignments_of_values, assignAll_lastValues]

theorem runOptions_of_describes (h : i.settings.Describes s) (m : Machine) :
    i.runOptions m = .ok s.options := by
  obtain ⟨count, registers, mode, trace, limit⟩ := s
  have hlimit := h.limit
  have htrace := h.trace
  cases limit with
  | none => simp only [Invocation.runOptions, hlimit, Option.map_none, htrace]
  | some n => simp only [Invocation.runOptions, hlimit, Option.map_some, htrace]

end Describing

/-! ## What is printed -/

/-- The lines in which a program is shown: how many instructions it has, each of them, and the
labels. -/
def Shows (m : Machine) (lines : List String) : Prop :=
  ∃ program, m.programLines = .ok program ∧
    lines = ("Here is the program; it has " ++ Numeral.text m.program.size ++ " instructions.") ::
      program ++ ["Labels: " ++ m.labels.shown]

/-- The lines before an execution: the program, if there is one and it is asked for. -/
inductive Heading (asked : Prop) : Except Report Machine → List String → Prop where
  | shown {m : Machine} {lines : List String} : asked → Shows m lines → Heading asked (.ok m) lines
  | unasked {m : Machine} : ¬ asked → Heading asked (.ok m) []
  | untranslated {r : Report} : Heading asked (.error r) []

/-- The lines after a run: the registers, if it has been successful and they are asked for. -/
inductive Closing (asked : Prop) : Except Failure Machine → List String → Prop where
  | shown {m : Machine} : asked → Closing asked (.ok m) ["Registers: " ++ m.registers.shown]
  | unasked {m : Machine} : ¬ asked → Closing asked (.ok m) []
  | failed {f : Failure} : Closing asked (.error f) []

/-- The exit code tells whether the run is successful, and the output is that of the run with the
lines that are asked for around it. -/
structure Agrees (choices : List Choice) (ready : Except Report Machine) (t : Transcript)
    (r : Report) : Prop where
  success : t.ending = .exit 0 ↔ ∃ m, r.result = .ok m
  failure : t.ending = .exit 1 ↔
    ∃ f, r.result = .error f ∧ (CommandFailure.request f).isReported = true
  stdout : ∃ heading closing, t.stdout = heading ++ r.printed ++ closing ∧
    Heading (.dump ∈ choices) ready heading ∧ Closing (.printRegisters ∈ choices) r.result closing

/-- What one of the options asks for is asked for if that option is among the choices. -/
theorem asked_of_choices {asked : Settings → Bool} {option : Choice}
    (h : ∀ st c, asked (Choice.settle st c) = true ↔ asked st = true ∨ option = c)
    (choices : List Choice) (st : Settings) :
    asked (choices.foldl Choice.settle st) = true ↔ asked st = true ∨ option ∈ choices := by
  induction choices generalizing st with
  | nil => simp
  | cons c choices ih => rw [List.foldl_cons, ih, h, List.mem_cons, or_assoc]

theorem dump_of_choices (choices : List Choice) :
    (choices.foldl Choice.settle {}).dump = true ↔ .dump ∈ choices := by
  have hstep : ∀ (st : Settings) (c : Choice),
      (c.settle st).dump = true ↔ st.dump = true ∨ .dump = c := by
    intro st c
    cases c <;> simp [Choice.settle]
  rw [asked_of_choices hstep]
  exact or_iff_right Bool.false_ne_true

theorem printRegisters_of_choices (choices : List Choice) :
    (choices.foldl Choice.settle {}).printRegisters = true ↔ .printRegisters ∈ choices := by
  have hstep : ∀ (st : Settings) (c : Choice),
      (c.settle st).printRegisters = true ↔ st.printRegisters = true ∨ .printRegisters = c := by
    intro st c
    cases c <;> simp [Choice.settle]
  rw [asked_of_choices hstep]
  exact or_iff_right Bool.false_ne_true

theorem heading_of_ok {i : Invocation} {m : Machine} {lines : List String}
    (h : i.heading m = .ok lines) : Heading (i.settings.dump = true) (.ok m) lines := by
  unfold Invocation.heading at h
  by_cases hd : i.settings.dump = true
  · rw [if_pos hd] at h
    cases hp : m.programLines with
    | error e => rw [hp] at h; cases h
    | ok program =>
      rw [hp] at h
      cases h
      exact .shown hd ⟨program, hp, rfl⟩
  · rw [if_neg hd] at h
    cases h
    exact .unasked hd

theorem stdout_failed (stdout stderr : List String) (f : CommandFailure) :
    (Transcript.failed stdout stderr f).stdout = stdout := by
  unfold Transcript.failed
  split
  · split <;> rfl
  · rfl

section Agreeing

variable {choices : List Choice} {ready : Except Report Machine} {heading printed log : List String}

/-- A run that fails agrees with the command that fails in the same way, if the failure is told or
escapes. -/
theorem agrees_of_error {f : Failure} (hh : Heading (.dump ∈ choices) ready heading)
    (hf : (CommandFailure.request f).Told ∨ (CommandFailure.request f).isReported = false) :
    Agrees choices ready (.failed (heading ++ printed) log (.request f)) ⟨.error f, printed⟩ := by
  have hout : (Transcript.failed (heading ++ printed) log (.request f)).stdout =
      heading ++ printed ++ [] := by rw [stdout_failed, List.append_nil]
  rcases hf with ht | hr
  · have he := ending_failed_of_told ht (heading ++ printed) log
    refine ⟨?_, ?_, heading, [], hout, hh, .failed⟩
    · rw [he]; exact ⟨nofun, nofun⟩
    · rw [he]; exact iff_of_true rfl ⟨f, rfl, ht.1⟩
  · have he := ending_failed_of_not_reported hr (heading ++ printed) log
    refine ⟨?_, ?_, heading, [], hout, hh, .failed⟩
    · rw [he]; exact ⟨nofun, nofun⟩
    · rw [he]
      refine ⟨nofun, ?_⟩
      rintro ⟨g, ⟨⟩, hg⟩
      rw [hr] at hg; cases hg

theorem agrees_of_ok {m : Machine} (hh : Heading (.dump ∈ choices) ready heading) {asked : Bool}
    (ha : asked = true ↔ .printRegisters ∈ choices) :
    Agrees choices ready
      { stdout := heading ++ printed ++
          if asked then ["Registers: " ++ m.registers.shown] else []
        stderr := log
        ending := .exit 0 } ⟨.ok m, printed⟩ := by
  refine ⟨iff_of_true rfl ⟨m, rfl⟩, ⟨nofun, nofun⟩, heading, _, rfl, hh, ?_⟩
  cases asked with
  | true => exact .shown (ha.1 rfl)
  | false => exact .unasked fun hc => absurd (ha.2 hc) Bool.false_ne_true

end Agreeing

/-! ## The two ways to run a file -/

theorem console_of_machine {i : Invocation} {m : Machine} (h : i.machine = .ok m) :
    m.console = #[] := by
  obtain ⟨registers, rfl⟩ := fresh_of_machine h
  rfl

theorem console_of_assemble {m m' : Machine} {lines : List String} {r : Except Failure Unit}
    (h : m.assemble lines = (r, m')) : m'.console = m.console := by
  obtain ⟨l, rfl⟩ := eq_install_of_assemble h
  rfl

/-- Whatever comes of the preparation, and of the execution after it. -/
theorem agrees_of_prepared {i : Invocation} {s : Setup} {choices : List Choice} {files : FileTree}
    {path : String} {p : Except Transcript Job} (hs : i.settings.Describes s)
    (hdump : i.settings.dump = true ↔ .dump ∈ choices)
    (hregisters : i.settings.printRegisters = true ↔ .printRegisters ∈ choices)
    (hnul : files.find path ≠ .error .nulInPath) (hloop : files.find path ≠ .error .linkLoop)
    {full : String} (hp : Prepared i full (files.find path) p) (rounds : Nat) :
    Option.Rel (Agrees choices (s.ready files path)) (proceed p rounds)
      (s.runFile rounds files path) := by
  have hmachine := machine_of_describes hs
  have hbuilt : ∀ {m}, i.machine = .ok m → s.machine = .ok m := by
    intro m hm
    rw [hmachine] at hm
    cases hsm : s.machine with
    | error g => rw [hsm] at hm; cases hm
    | ok m' => rw [hsm] at hm; cases hm; rfl
  rw [Setup.runFile_eq]
  cases hp with
  | @unbuilt f hm =>
    have hfails : f.Told ∨ f.isReported = false :=
      (told_or_escapes_of_machine hm full (files.find path)).imp_right fun he => he.not_reported
    cases hsm : s.machine with
    | ok m => rw [hmachine, hsm] at hm; cases hm
    | error g =>
      rw [hmachine, hsm] at hm; cases hm
      rw [Setup.ready_unbuilt hsm]
      exact .some (agrees_of_error .untranslated hfails)
  | unnamed _ hc => exact absurd hc hnul
  | looped _ hc => exact absurd hc hloop
  | @unreadable m stderr hm hl hc =>
    have hready := Setup.ready_unreadable (hbuilt hm) hl hc
    rw [hready, console_of_machine hm]
    refine .some ⟨⟨nofun, nofun⟩, iff_of_true rfl ⟨_, rfl, rfl⟩, [], [], rfl, .untranslated, .failed⟩
  | @refused m m' lines log f hm hl ha =>
    have hready := Setup.ready_refused (hbuilt hm) hl ha
    rw [hready, console_of_assemble ha, console_of_machine hm]
    exact .some (agrees_of_error .untranslated (.inl (told_of_assemble ha)))
  | @unlimited m m' lines heading log f hm hl ha hh ho =>
    rw [runOptions_of_describes hs] at ho
    cases ho
  | @ready m m' lines heading log options hm hl ha hh ho =>
    rw [runOptions_of_describes hs] at ho
    cases ho
    have hready := Setup.ready_of_lines (hbuilt hm) hl ha
    have hheading : Heading (.dump ∈ choices) (.ok m') heading := by
      rw [← propext hdump]
      exact heading_of_ok hh
    rw [hready]
    simp only [proceed, Job.run, Setup.finish]
    cases hx : m'.execute s.options rounds with
    | none => exact .none
    | some out =>
      obtain ⟨r, m₂⟩ := out
      cases r with
      | ok u => exact .some (agrees_of_ok hheading hregisters)
      | error f =>
        obtain ⟨e, rfl, text, ht⟩ := failure_of_endsUnder (showable_of_assemble ha) ⟨rounds, hx⟩
        exact .some (agrees_of_error hheading (.inl (told_of_machine_error ht)))

/-- A command line with the name of a file, or of none, and options in full, in any order and before or
after the name, ends exactly when the run of the file with the setup that the options describe does.
The exit code is 0 when that run is successful and 1 when it fails in a way that is reported, and what
is printed is the output of the run, with the program and the registers around it where they are
asked for. -/
theorem run_agrees_with_runFile {name : String} (hn : PlainName name) {files : FileTree}
    (hf : files.Realizable) (hloop : files.entry? [name] ≠ some .loop) (before after : List Choice)
    (directory detail : String) (rounds : Nat) :
    let choices := before ++ after
    let s := choices.foldl Choice.setUp {}
    Option.Rel (Agrees choices (s.ready files name))
      (run files directory detail rounds
        (before.map Choice.argument ++ name :: after.map Choice.argument))
      (s.runFile rounds files name) := by
  intro choices s
  let i : Invocation := { program := name, settings := choices.foldl Choice.settle {} }
  have hs : i.settings.Describes s := describes_choices describes_default choices
  have hparse := parse_choices hn.nonempty hn.positional before after
  obtain ⟨p, hp, hrun⟩ := run_of_parse hparse files directory detail rounds
  rw [hn.findShortened_eq_find hf hloop] at hp
  rw [hrun]
  have hnul : files.find name ≠ .error .nulInPath := FileTree.find_ne_nulInPath hn.noNul
  exact agrees_of_prepared (i := i) hs (dump_of_choices choices)
    (printRegisters_of_choices choices) hnul files.find_ne_linkLoop hp rounds

/-- The file holds the line `a out 1`. Register 1 gets two values, of which the second counts. -/
theorem run_agrees_with_runFile_shown :
    let files : FileTree := { entries := [(["p"], .file ⟨#[97, 32, 111, 117, 116, 32, 49]⟩)] }
    let index : TypedInt := .ofInt 1 (by decide)
    let before : List Choice :=
      [.dump, .set index (.ofInt 5 (by decide)), .set index (.ofInt (-3) (by decide))]
    let after : List Choice := [.registers (.ofInt 2 (by decide)), .printRegisters]
    let arguments := ["--dump", "--set=1=5", "--set=1=-3", "p", "--registers=2", "--print-registers"]
    let s : Setup := { registerCount := 2, registers := [(1, 5), (1, -3)] }
    let t : Transcript :=
      { stdout := ["Here is the program; it has 1 instructions.", "a: out 1", "Labels: (a)", "-3",
          "Registers: 0=0 1=-3"]
        ending := .exit 0 }
    PlainName "p" ∧ files.Realizable ∧ files.entry? ["p"] ≠ some .loop ∧
      run files "" "" 2 arguments = some t ∧
      ∃ r, s.runFile 2 files "p" = some r ∧ Agrees (before ++ after) (s.ready files "p") t r := by
  intro files index before after arguments s t
  have hn : PlainName "p" :=
    ⟨by decide, by simp, by decide, by decide, by decide, by decide⟩
  have hf : files.Realizable := by
    refine ⟨rfl, fun place bytes h => ?_⟩
    by_cases hp : place = ["p"]
    · subst hp; decide
    · have hlookup : files.entries.lookup place = none := by simp [files, hp]
      rw [FileTree.entry?, hlookup] at h
      simp only at h
      split at h <;> cases h
  have hr : run files "" "" 2 arguments = some t := by decide +kernel
  have harguments :
      before.map Choice.argument ++ "p" :: after.map Choice.argument = arguments := by decide +kernel
  have hs : (before ++ after).foldl Choice.setUp {} = s := rfl
  have hloop : files.entry? ["p"] ≠ some .loop := nofun
  have hagrees := run_agrees_with_runFile hn hf hloop before after "" "" 2
  simp only [harguments, hr, hs] at hagrees
  refine ⟨hn, hf, hloop, hr, ?_⟩
  generalize s.runFile 2 files "p" = report at hagrees ⊢
  cases hagrees with
  | some hagrees => exact ⟨_, rfl, hagrees⟩

end CommandLine
end SimpleMachine
