import Mathlib.Data.List.Induction
import SimpleMachine.Proofs.Atomicity

/-!
# SimpleMachine.Proofs.Installation

What the machine holds after it has been given a program.

* `FirstAt program name k`: the first instruction with the label `name` is the one at `k`.
* `Indexes t program`: the table `t` has the labels of the program that are not empty, in the order
  in which they first occur, each with the address of its first occurrence. The table of a loaded
  program is of this kind (`indexes_labelsOf`).
* `lineInstruction? mode line`: the instruction of a line, if it has one that can be read.
* `ofLines_eq_ok_iff`: a text of which no word is refused is read as the instructions of its lines,
  with the very table that loading them gives. So assembling a text and loading these instructions
  is the same (`assemble_eq_ok_iff`).
* `installed_program_indexed`: what holds after each way to give the machine a program, and where a
  jump goes then.
-/

namespace SimpleMachine

open Source Machine

/-- The first instruction with the label is the one at address `k`. -/
structure FirstAt (program : List Instruction) (name : String) (k : Nat) : Prop where
  found : ∃ i, program[k]? = some i ∧ i.label = name
  first : ∀ j i, j < k → program[j]? = some i → i.label ≠ name

structure LabelTable.Indexes (t : LabelTable) (program : List Instruction) : Prop where
  address?_eq_some_iff : ∀ name a,
    t.address? name = some a ↔ name ≠ "" ∧ ∃ k : Nat, a = k ∧ FirstAt program name k
  names_eq : t.names = ((program.map Instruction.label).filter (· ≠ "")).eraseDups

theorem firstAt_iff_findIdx? {program : List Instruction} {name : String} {k : Nat} :
    FirstAt program name k ↔ program.findIdx? (fun i => i.label = name) = some k := by
  rw [List.findIdx?_eq_some_iff_getElem]
  constructor
  · rintro ⟨⟨i, hi, hl⟩, hfirst⟩
    obtain ⟨hk, rfl⟩ := List.getElem?_eq_some_iff.1 hi
    refine ⟨hk, by simpa using hl, fun j hj => ?_⟩
    simpa using hfirst j _ hj (List.getElem?_eq_getElem (by omega))
  · rintro ⟨hk, hl, hfirst⟩
    refine ⟨⟨_, List.getElem?_eq_getElem hk, by simpa using hl⟩, fun j i hj hi => ?_⟩
    obtain ⟨hjlt, rfl⟩ := List.getElem?_eq_some_iff.1 hi
    simpa using hfirst j hj

/-! ## The table of a list of instructions -/

theorem eraseDups_concat (names : List String) (name : String) :
    (names ++ [name]).eraseDups =
      if name ∈ names then names.eraseDups else names.eraseDups ++ [name] := by
  rw [List.eraseDups_append]
  by_cases h : name ∈ names <;> simp [List.removeAll, List.eraseDups_cons, h]

theorem labelsOf_concat (program : List Instruction) (i : Instruction) :
    labelsOf (program ++ [i]) =
      if i.label = "" then labelsOf program
      else (labelsOf program).add i.label program.length := by
  simp [labelsOf, List.zipIdx_append]

theorem address?_labelsOf (program : List Instruction) (name : String) :
    (labelsOf program).address? name =
      if name = "" then none
      else (program.findIdx? fun i => i.label = name).map fun k : Nat => (k : Int) := by
  -- from the end: the table is filled in the order of the program, and a label it has is not moved
  induction program using List.reverseRecOn with
  | nil => simp [labelsOf]
  | append_singleton program i ih =>
    rw [labelsOf_concat, List.findIdx?_append]
    by_cases hi : i.label = ""
    · rw [if_pos hi, ih]
      by_cases hn : name = ""
      · simp [hn]
      · have hne : ¬ i.label = name := by rw [hi]; exact Ne.symm hn
        simp [hn, hne]
    · rw [if_neg hi, LabelTable.address?_add, ih]
      by_cases hl : name = i.label
      · subst hl
        cases hf : program.findIdx? fun j => j.label = i.label <;> simp [hi]
      · simp [hl, Ne.symm hl]

theorem names_labelsOf (program : List Instruction) :
    (labelsOf program).names =
      ((program.map Instruction.label).filter (· ≠ "")).eraseDups := by
  induction program using List.reverseRecOn with
  | nil => rfl
  | append_singleton program i ih =>
    rw [labelsOf_concat]
    by_cases hi : i.label = ""
    · simp [hi, ih]
    · have hf : [i.label].filter (· ≠ "") = [i.label] := by simp [hi]
      rw [if_neg hi, LabelTable.names_add, List.map_append, List.filter_append, List.map_singleton,
        hf, eraseDups_concat, ih]
      simp only [List.mem_eraseDups]

theorem indexes_labelsOf (program : List Instruction) : (labelsOf program).Indexes program where
  address?_eq_some_iff name a := by
    rw [address?_labelsOf]
    by_cases hn : name = ""
    · simp [hn]
    · simp only [hn, if_false, Option.map_eq_some_iff, firstAt_iff_findIdx?, ne_eq,
        not_false_eq_true, true_and]
      constructor
      · rintro ⟨k, hk, rfl⟩; exact ⟨k, rfl, hk⟩
      · rintro ⟨k, rfl, hk⟩; exact ⟨k, hk, rfl⟩
  names_eq := names_labelsOf program

/-! ## The listing of a text -/

namespace Source

/-- The instruction of a line; a blank line has none, and neither has one that cannot be read. -/
def lineInstruction? (mode : Mode) (line : String) : Option Instruction :=
  if (nextWord line.toList).1 = [] then none
  else (readStatement mode (String.ofList (nextWord line.toList).1) 0
    (nextWord line.toList).2).1.toOption

theorem lineInstruction?_eq_some_iff {mode : Mode} {line : String} {i : Instruction} :
    lineInstruction? mode line = some i ↔ (nextWord line.toList).1 ≠ [] ∧
      (readStatement mode (String.ofList (nextWord line.toList).1) 0
        (nextWord line.toList).2).1 = .ok i := by
  unfold lineInstruction?
  split
  · simp [*]
  · cases (readStatement mode (String.ofList (nextWord line.toList).1) 0
      (nextWord line.toList).2).1 <;> simp [Except.toOption, *]

/-- That a line is read at all is what keeps strict reading from refusing a word of it. -/
theorem find?_lineIntegers_eq_none {mode : Mode} {line : String} {i : Instruction}
    (h : lineInstruction? mode line = some i) : (lineIntegers line).find? (refuses mode) = none :=
  exists_ok_readStatement_iff.1 ⟨_, (lineInstruction?_eq_some_iff.1 h).2⟩

theorem firstRefused_of_lineInstruction? {mode : Mode} {lines : List String}
    (h : ∀ line ∈ lines, ∃ i, lineInstruction? mode line = some i) :
    firstRefused mode lines = none := by
  induction lines with
  | nil => rfl
  | cons line lines ih =>
    obtain ⟨i, hi⟩ := h line List.mem_cons_self
    rw [firstRefused_cons, find?_lineIntegers_eq_none hi,
      ih fun line hline => h line (List.mem_cons_of_mem _ hline)]
    rfl

theorem label_of_readStatement {mode : Mode} {label : String} {number : Int}
    {statement : List Char} {i : Instruction}
    (h : (readStatement mode label number statement).1 = .ok i) : i.label = label := by
  rcases readStatement_eq_ok_iff.1 h with ⟨-, rfl⟩ | ⟨op, operands, -, -, rfl⟩ <;> rfl

/-- Lines are read one by one into the instructions that they have and the table of these. -/
theorem extend_eq_ok {mode : Mode} {number : Nat} {l l' : Listing} {lines : List String}
    (h : Listing.extend mode number l lines = (.ok (), l'))
    (hl : l.labels = labelsOf l.program.toList) :
    l'.program.toList = l.program.toList ++ lines.filterMap (lineInstruction? mode) ∧
      l'.labels = labelsOf l'.program.toList := by
  -- `hl` is what carries the induction: the table so far is that of the program so far
  induction lines generalizing number l with
  | nil => cases h; exact ⟨by simp, hl⟩
  | cons line lines ih =>
    by_cases hb : (nextWord line.toList).1 = []
    · rw [Listing.extend_cons_of_blank hb] at h
      have hnone : lineInstruction? mode line = none := by rw [lineInstruction?, if_pos hb]
      rw [List.filterMap_cons_none hnone]
      exact ih h hl
    · rw [Listing.extend_cons_of_label hb] at h
      cases hr : (readStatement mode (String.ofList (nextWord line.toList).1) number
          (nextWord line.toList).2).1 with
      | error e => rw [hr] at h; cases h
      | ok i =>
        rw [hr] at h
        have hsome : lineInstruction? mode line = some i :=
          -- there and back, because the two sides differ in the line number
          lineInstruction?_eq_some_iff.2
            ⟨hb, readStatement_eq_ok_iff.2 (readStatement_eq_ok_iff.1 hr)⟩
        have hi : i.label = String.ofList (nextWord line.toList).1 := label_of_readStatement hr
        have hne : i.label ≠ "" := by simpa [hi] using hb
        obtain ⟨hp, ht⟩ := ih h (by
          rw [Listing.push, Listing.mark, Array.toList_push, labelsOf_concat, if_neg hne, hl, hi]
          simp)
        refine ⟨?_, ht⟩
        rw [hp, List.filterMap_cons_some hsome]
        simp [Listing.push, Listing.mark]

/-- A text is read when none of its integer words is refused, and then into the instructions of its
lines and the table of these. -/
theorem ofLines_eq_ok_iff {mode : Mode} {lines : List String} {l : Listing} :
    Listing.ofLines mode lines = (.ok (), l) ↔
      firstRefused mode lines = none ∧
        l = { labels := labelsOf (lines.filterMap (lineInstruction? mode)),
              program := (lines.filterMap (lineInstruction? mode)).toArray } := by
  have key : ∀ {l' : Listing}, Listing.ofLines mode lines = (.ok (), l') →
      l' = { labels := labelsOf (lines.filterMap (lineInstruction? mode)),
             program := (lines.filterMap (lineInstruction? mode)).toArray } := by
    intro l' h
    obtain ⟨hp, ht⟩ := extend_eq_ok h rfl
    rw [List.nil_append] at hp
    calc l' = { labels := l'.labels, program := l'.program.toList.toArray } := rfl
      _ = _ := by rw [ht, hp]
  constructor
  · intro h
    exact ⟨firstRefused_of_ok (congrArg Prod.fst h), key h⟩
  · rintro ⟨hn, rfl⟩
    cases hl : Listing.ofLines mode lines with
    | mk r l' =>
      cases r with
      | ok u => rw [key hl]
      | error e =>
        obtain ⟨w, hw⟩ := exists_error_extend_iff.1 ⟨e, congrArg Prod.fst hl⟩
        rw [hn] at hw; cases hw

end Source

/-! ## The machine with a program -/

namespace Machine

/-- A text that can be assembled leaves the machine as loading the instructions of its lines
does. -/
theorem assemble_eq_ok_iff {lines : List String} {m m' : Machine} :
    m.assemble lines = (.ok (), m') ↔
      firstRefused m.mode lines = none ∧
        m' = m.load (lines.filterMap (lineInstruction? m.mode)) := by
  constructor
  · intro h
    cases hl : Listing.ofLines m.mode lines with
    | mk r l =>
      cases r with
      | error e => cases e <;> simp [assemble, hl] at h
      | ok u =>
        obtain ⟨hn, rfl⟩ := ofLines_eq_ok_iff.1 hl
        simp only [assemble, hl, Prod.mk.injEq, true_and] at h
        exact ⟨hn, h.symm⟩
  · rintro ⟨hn, rfl⟩
    simp only [assemble, ofLines_eq_ok_iff.2 ⟨hn, rfl⟩]
    rfl

/-- Lines that all have an instruction are assembled into these. -/
theorem assemble_of_lineInstructions {lines : List String} {program : List Instruction}
    {m : Machine} (h : lines.map (lineInstruction? m.mode) = program.map some) :
    m.assemble lines = (.ok (), m.load program) := by
  have hread : ∀ line ∈ lines, ∃ i, lineInstruction? m.mode line = some i := by
    intro line hline
    have hmem : lineInstruction? m.mode line ∈ program.map some := h ▸ List.mem_map_of_mem hline
    obtain ⟨i, -, hi⟩ := List.mem_map.1 hmem
    exact ⟨i, hi.symm⟩
  have hinstructions : lines.filterMap (lineInstruction? m.mode) = program := by
    have hid : lines.filterMap (lineInstruction? m.mode) =
        (lines.map (lineInstruction? m.mode)).filterMap id := by simp [List.filterMap_map]
    rw [hid, h]
    simp [List.filterMap_map]
  exact assemble_eq_ok_iff.2 ⟨firstRefused_of_lineInstruction? hread, by rw [hinstructions]⟩

/-- A file that is missing, or whose bytes are no text, is not read. -/
theorem result_read_ne_of_no_lines {files : FileTree} {path encoding : String} {m : Machine}
    (h : files.lines? path encoding = none) : (m.read files path encoding).result ≠ .ok true := by
  unfold FileTree.lines? at h
  unfold read readContents
  cases hf : files.find path with
  | error e => cases e <;> simp
  | ok bytes =>
    cases he : Encoding.ofName? encoding with
    | none => simp
    | some e =>
      rw [hf, he] at h
      simp only [Option.map_eq_none_iff] at h
      simp [h]

/-- Reading a file succeeds exactly when it has lines and these can be assembled. -/
theorem read_eq_true_iff {files : FileTree} {path encoding : String} {m : Machine} :
    (m.read files path encoding).result = .ok true ↔
      ∃ lines, files.lines? path encoding = some lines ∧ (m.assemble lines).1 = .ok () := by
  cases hl : files.lines? path encoding with
  | some lines =>
    simp only [(read_of_lines hl).1, Option.some.injEq, exists_eq_left']
    cases (m.assemble lines).1 <;> simp [Except.map]
  | none => simp [result_read_ne_of_no_lines hl]

structure Installs (program : List Instruction) (m m' : Machine) : Prop where
  program_eq : m'.program.toList = program
  indexes : m'.labels.Indexes program
  names_nodup : m'.labels.names.Nodup
  rest_eq : m' = { m with program := m'.program, labels := m'.labels }
  reload_eq : m'.load program = m'
  jump_of_first : ∀ name k, name ≠ "" → FirstAt program name k → m'.jump name = { m' with pc := k }
  jump_of_none : ∀ name, (name = "" ∨ ∀ i ∈ program, i.label ≠ name) → m'.jump name = m'

theorem installs_load (program : List Instruction) (m : Machine) :
    Installs program m (m.load program) where
  program_eq := rfl
  indexes := indexes_labelsOf program
  names_nodup := (labelsOf program).nodup_names
  rest_eq := rfl
  reload_eq := rfl
  jump_of_first name k hn hk := by
    have ha : (m.load program).labels.address? name = some (k : Int) :=
      ((indexes_labelsOf program).address?_eq_some_iff name k).2 ⟨hn, k, rfl, hk⟩
    simp [jump, ha]
  jump_of_none name h := by
    have ha : (m.load program).labels.address? name = none := by
      rw [Option.eq_none_iff_forall_ne_some]
      intro a ha
      obtain ⟨hn, k, -, ⟨i, hi, hl⟩, -⟩ :=
        ((indexes_labelsOf program).address?_eq_some_iff name a).1 ha
      rcases h with h | h
      · exact hn h
      · exact h i (List.mem_of_getElem? hi) hl
    simp [jump, ha]

/-- However the machine is given a program, its table has the labels of just that program, each with
its first address, and this is where a jump goes. A text, or the text of a file, leaves what loading
its instructions leaves, whatever the machine held before. -/
theorem installed_program_indexed (m : Machine) :
    (∀ lines m', m.assemble lines = (.ok (), m') → ∃ program, Installs program m m' ∧
      ∀ m₀ : Machine, m₀.mode = m.mode → m₀.assemble lines = (.ok (), m₀.load program)) ∧
    (∀ files path encoding, (m.read files path encoding).result = .ok true →
      ∃ program, Installs program m (m.read files path encoding).machine ∧
        ∀ m₀ : Machine, m₀.mode = m.mode →
          (m₀.read files path encoding).result = .ok true ∧
          (m₀.read files path encoding).machine = m₀.load program) ∧
    ∀ program, Installs program m (m.load program) := by
  have same : ∀ {lines : List String} {m₀ : Machine}, m₀.mode = m.mode →
      firstRefused m.mode lines = none →
      m₀.assemble lines = (.ok (), m₀.load (lines.filterMap (lineInstruction? m.mode))) := by
    intro lines m₀ hm hn
    rw [← hm] at hn ⊢
    exact assemble_eq_ok_iff.2 ⟨hn, rfl⟩
  refine ⟨fun lines m' h => ?_, fun files path encoding h => ?_, fun program => ?_⟩
  · obtain ⟨hn, rfl⟩ := assemble_eq_ok_iff.1 h
    exact ⟨_, installs_load _ m, fun m₀ hm => same hm hn⟩
  · obtain ⟨lines, hl, ha⟩ := read_eq_true_iff.1 h
    obtain ⟨hn, -⟩ := assemble_eq_ok_iff.1 (Prod.ext ha rfl)
    have hread : ∀ {m₀ : Machine}, m₀.mode = m.mode →
        (m₀.read files path encoding).result = .ok true ∧
        (m₀.read files path encoding).machine =
          m₀.load (lines.filterMap (lineInstruction? m.mode)) := by
      intro m₀ hm
      obtain ⟨hr, hmachine⟩ := read_of_lines (m := m₀) hl
      rw [hr, hmachine, same hm hn]
      exact ⟨rfl, rfl⟩
    refine ⟨_, ?_, fun m₀ hm => hread hm⟩
    rw [(hread rfl).2]
    exact installs_load _ m
  · exact installs_load program m

/-- A label that occurs twice, a blank line and a table that is out of date; from a text and from a
file with the same lines. -/
theorem installed_program_indexed_stale :
    let i : Instruction := ⟨"a", .out, [.int 0]⟩
    let j : Instruction := ⟨"b", .bnz, [.int 0, .word "a"]⟩
    let m : Machine :=
      { pc := 3, registers := .zeros 1, labels := (∅ : LabelTable).add "z" 7, steps := 3 }
    let lines : List String := ["a out 0", " ", "b bnz 0 a", "a out 0"]
    let text : String := "a out 0\r\n \nb bnz 0 a\na out 0"
    let files : FileTree := { entries := [(["p"], .file text.toUTF8)] }
    (∃ m', m.assemble lines = (.ok (), m') ∧ m'.program.toList = [i, j, i] ∧
      m'.labels.address? "a" = some 0 ∧ m'.jump "b" = { m' with pc := 1 } ∧
      m'.jump "z" = m') ∧
    (m.read files "p").result = .ok true ∧
      (m.read files "p").machine.jump "z" = (m.read files "p").machine := by
  intro i j m lines text files
  obtain ⟨m', h₁, hp⟩ : ∃ m', m.assemble lines = (.ok (), m') ∧ m'.program.toList = [i, j, i] :=
    ⟨_, by rfl, by rfl⟩
  have hf : files.find "p" = .ok text.toUTF8 := by
    have hs : "p".startsWith "/" = false := by simp
    simp only [FileTree.find, hs]
    rfl
  have hcut : Text.fileLines text.toList = lines := by decide
  have hl : files.lines? "p" "utf-8" = some lines := by
    simp only [FileTree.lines?, hf, Encoding.ofName?, Encoding.decode?_toUTF8, Option.map_some,
      hcut]
  have h₂ : (m.read files "p").result = .ok true :=
    read_eq_true_iff.2 ⟨lines, hl, congrArg Prod.fst h₁⟩
  obtain ⟨hassemble, hread, -⟩ := installed_program_indexed m
  obtain ⟨program, hi, -⟩ := hassemble lines m' h₁
  obtain rfl : program = [i, j, i] := hi.program_eq.symm.trans hp
  refine ⟨⟨m', h₁, hp, ?_, ?_, ?_⟩, h₂, ?_⟩
  · refine (hi.indexes.address?_eq_some_iff "a" 0).2 ⟨by decide, 0, rfl, ⟨i, rfl, rfl⟩, ?_⟩
    intro k x hk
    omega
  · refine hi.jump_of_first "b" 1 (by decide) ⟨⟨j, rfl, rfl⟩, ?_⟩
    intro k x hk hx
    obtain rfl : k = 0 := by omega
    cases hx
    decide
  · exact hi.jump_of_none "z" (.inr (by decide))
  · have hp' : (m.read files "p").machine.program.toList = [i, j, i] := by
      rw [(read_of_lines hl).2, h₁]; exact hp
    obtain ⟨program', hi', -⟩ := hread files "p" "utf-8" h₂
    obtain rfl : program' = [i, j, i] := hi'.program_eq.symm.trans hp'
    exact hi'.jump_of_none "z" (.inr (by decide))

end Machine
end SimpleMachine
