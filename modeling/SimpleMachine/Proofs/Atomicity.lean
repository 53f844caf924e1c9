import SimpleMachine.FileTree
import SimpleMachine.Proofs.Operands

/-!
# SimpleMachine.Proofs.Atomicity

What a failed attempt to give the machine a program leaves behind.

* `assemble_touches`, `read_touches`: the program and the labels are replaced, and nothing else.
* `assemble_of_refused`: a text that is refused for a malformed operand leaves neither program nor
  labels; `assemble_of_overlong`: one that is refused for the length of a numeral leaves the
  instructions of the lines before it, and the labels up to its own.
* `linesOf?`, `FileTree.lines?`: the lines of a file, if it can be opened and decoded. Reading a file is
  giving up the old program and then assembling these lines (`readContents_of_lines`,
  `readContents_of_no_lines`).
* `failure_unloads_iff`: a failure leaves the machine unloaded, and otherwise as it was, exactly
  when the first refused operand is not an overlong numeral.
-/

namespace SimpleMachine

open Source

namespace Machine

theorem assemble_touches (lines : List String) (m : Machine) :
    ∃ l, (m.assemble lines).2 = m.install l := by
  unfold assemble
  split
  · exact ⟨_, rfl⟩
  · exact ⟨{}, rfl⟩
  · exact ⟨_, rfl⟩

theorem eq_install_of_assemble {lines : List String} {m m' : Machine} {r : Except Failure Unit}
    (h : m.assemble lines = (r, m')) : ∃ l, m' = m.install l := by
  obtain ⟨l, hl⟩ := assemble_touches lines m
  rw [h] at hl
  exact ⟨l, hl⟩

/-- A text cannot be assembled exactly when one of its words is refused. -/
theorem exists_error_assemble_iff {lines : List String} {m : Machine} :
    (∃ f, (m.assemble lines).1 = .error f) ↔ ∃ w, firstRefused m.mode lines = some w := by
  have hext : (∃ e, (Listing.ofLines m.mode lines).1 = .error e) ↔
      ∃ w, firstRefused m.mode lines = some w := exists_error_extend_iff
  rw [← hext]
  cases hl : Listing.ofLines m.mode lines with
  | mk r l =>
    cases r with
    | ok _ => simp [assemble, hl]
    | error e => cases e <;> simp [assemble, hl]

theorem assemble_of_refused {lines : List String} {m : Machine} {w : List Char}
    (hw : firstRefused m.mode lines = some w) (hn : ¬ Overlong w) :
    (m.assemble lines).2 = m.unload := by
  cases hl : Listing.ofLines m.mode lines with
  | mk r l =>
    cases r with
    | ok _ => rw [firstRefused_of_ok (congrArg Prod.fst hl)] at hw; cases hw
    | error e =>
      obtain ⟨w', e', op, n, s, hw', he, rfl⟩ := firstRefused_of_error (congrArg Prod.fst hl)
      rw [hw] at hw'; cases hw'
      cases e' with
      | notAnInteger word => simp only [assemble, hl, OperandError.at]
      | tooLong e => exact absurd (integerOperand_eq_tooLong_iff.1 ⟨e, he⟩) hn

theorem assemble_of_overlong {lines : List String} {m : Machine} {w : List Char}
    (hw : firstRefused m.mode lines = some w) (ho : Overlong w) :
    ∃ before line after l, lines = before ++ line :: after ∧
      Listing.ofLines m.mode before = (.ok (), l) ∧
      (m.assemble lines).2 = m.install (l.mark (String.ofList (nextWord line.toList).1)) := by
  cases hl : Listing.ofLines m.mode lines with
  | mk r l =>
    cases r with
    | ok _ => rw [firstRefused_of_ok (congrArg Prod.fst hl)] at hw; cases hw
    | error e =>
      obtain ⟨before, line, after, l₁, rfl, hl₁, -, -, rfl⟩ := extend_eq_error hl
      obtain ⟨w', e', op, n, s, hw', he, rfl⟩ := firstRefused_of_error (congrArg Prod.fst hl)
      rw [hw] at hw'; cases hw'
      refine ⟨before, line, after, l₁, rfl, hl₁, ?_⟩
      obtain ⟨e₀, he₀⟩ := integerOperand_eq_tooLong_iff.2 ho
      rw [he₀] at he; cases he
      simp only [assemble, hl, OperandError.at]

/-- A listing with a marked label is not the empty one. -/
theorem install_mark_ne_unload (m : Machine) (l : Listing) (label : String) :
    m.install (l.mark label) ≠ m.unload := by
  intro h
  have hnames : (l.labels.add label l.program.size).names = [] :=
    congrArg (fun m' : Machine => m'.labels.names) h
  by_cases hm : label ∈ l.labels.names
  · rw [LabelTable.add_of_mem hm] at hnames
    rw [hnames] at hm; cases hm
  · simp [LabelTable.names, LabelTable.entries_add_of_notMem hm] at hnames

theorem assemble_eq_unload_iff {lines : List String} {m : Machine} {w : List Char}
    (hw : firstRefused m.mode lines = some w) :
    (m.assemble lines).2 = m.unload ↔ ¬ Overlong w := by
  constructor
  · intro h ho
    obtain ⟨_, _, _, l, _, _, hl⟩ := assemble_of_overlong hw ho
    rw [hl] at h
    exact install_mark_ne_unload m l _ h
  · exact assemble_of_refused hw

end Machine

/-! ## Files -/

/-- The lines of what has been found at a path, if it can be opened and decoded. -/
def linesOf? (contents : Except OpenError ByteArray) (encoding : String) : Option (List String) :=
  match contents, Encoding.ofName? encoding with
  | .ok bytes, some e => (e.decode? bytes).map Text.fileLines
  | _, _ => none

/-- The lines of the file at a path, if it can be opened and decoded. -/
def FileTree.lines? (files : FileTree) (path encoding : String) : Option (List String) :=
  match files.find path, Encoding.ofName? encoding with
  | .ok bytes, some e => (e.decode? bytes).map Text.fileLines
  | _, _ => none

theorem FileTree.find_ne_nulInPath {files : FileTree} {path : String} (h : '\x00' ∉ path.toList) :
    files.find path ≠ .error .nulInPath := by
  rw [FileTree.find, if_neg h]
  split
  · simp
  · unfold FileTree.contents
    split <;> simp

/-- A link that leads back to itself is a file that cannot be opened. -/
theorem FileTree.find_ne_linkLoop (files : FileTree) {path : String} :
    files.find path ≠ .error .linkLoop := by
  unfold FileTree.find FileTree.contents
  split
  · simp
  · split
    · simp
    · split <;> simp

namespace Machine

/-- The earlier program has no influence on how a text is assembled. -/
theorem assemble_unload (lines : List String) (m : Machine) :
    m.unload.assemble lines = m.assemble lines := rfl

theorem readContents_of_no_lines {path encoding : String} {contents : Except OpenError ByteArray}
    {m : Machine} (h : linesOf? contents encoding = none) :
    (m.readContents path encoding contents).machine = m.unload := by
  unfold linesOf? at h
  unfold readContents
  cases contents with
  | error e => cases e <;> rfl
  | ok bytes =>
    cases he : Encoding.ofName? encoding with
    | none => rfl
    | some e =>
      rw [he] at h
      simp only [Option.map_eq_none_iff] at h
      simp only [h]

/-- A path without a NUL at which there are no lines is unreadable. -/
theorem result_readContents_of_no_lines {path encoding : String}
    {contents : Except OpenError ByteArray} {m : Machine} (h : linesOf? contents encoding = none)
    (hc : contents ≠ .error .nulInPath) (he : Encoding.ofName? encoding ≠ none) :
    (m.readContents path encoding contents).result = .ok false := by
  obtain ⟨e, he⟩ := Option.ne_none_iff_exists'.1 he
  unfold readContents
  cases contents with
  | error o =>
    cases o with
    | unreadable | linkLoop => rfl
    | nulInPath => exact absurd rfl hc
  | ok bytes =>
    have hd : e.decode? bytes = none := by simpa [linesOf?, he] using h
    simp only [he, hd]

theorem readContents_of_lines {encoding : String} {contents : Except OpenError ByteArray}
    {m : Machine} {lines : List String} (path : String)
    (h : linesOf? contents encoding = some lines) :
    (m.readContents path encoding contents).result = (m.assemble lines).1.map (fun _ => true) ∧
      (m.readContents path encoding contents).machine = (m.assemble lines).2 := by
  unfold linesOf? at h
  unfold readContents
  cases contents with
  | error e => cases h
  | ok bytes =>
    cases he : Encoding.ofName? encoding with
    | none => rw [he] at h; cases h
    | some e =>
      rw [he] at h
      obtain ⟨text, ht, rfl⟩ := Option.map_eq_some_iff.1 h
      simp only [ht, assemble_unload]
      cases ha : m.assemble (Text.fileLines text) with
      | mk r m' => cases r <;> exact ⟨rfl, rfl⟩

theorem read_of_no_lines {files : FileTree} {path encoding : String} {m : Machine}
    (h : files.lines? path encoding = none) : (m.read files path encoding).machine = m.unload :=
  readContents_of_no_lines h

theorem read_of_lines {files : FileTree} {path encoding : String} {m : Machine}
    {lines : List String} (h : files.lines? path encoding = some lines) :
    (m.read files path encoding).result = (m.assemble lines).1.map (fun _ => true) ∧
      (m.read files path encoding).machine = (m.assemble lines).2 :=
  readContents_of_lines path h

theorem read_touches (files : FileTree) (path encoding : String) (m : Machine) :
    ∃ l, (m.read files path encoding).machine = m.install l := by
  cases hl : files.lines? path encoding with
  | none => exact ⟨{}, read_of_no_lines hl⟩
  | some lines =>
    rw [(read_of_lines hl).2]
    exact assemble_touches lines m

/-- A text or a file that fails to become the program changes nothing but the program and the
labels, and clears both exactly when the first refused operand is not an overlong numeral. -/
theorem failure_unloads_iff (m : Machine) :
    (∀ lines f, (m.assemble lines).1 = .error f →
      (∃ l, (m.assemble lines).2 = m.install l) ∧
      ∃ w, firstRefused m.mode lines = some w ∧
        ((m.assemble lines).2 = m.unload ↔ ¬ Overlong w)) ∧
    (∀ files path encoding f, (m.read files path encoding).result = .error f →
      (∃ l, (m.read files path encoding).machine = m.install l) ∧
      ((m.read files path encoding).machine = m.unload ↔
        ∀ lines w, files.lines? path encoding = some lines →
          firstRefused m.mode lines = some w → ¬ Overlong w)) := by
  refine ⟨fun lines f h => ?_, fun files path encoding f h => ?_⟩
  · obtain ⟨w, hw⟩ := exists_error_assemble_iff.1 ⟨f, h⟩
    exact ⟨assemble_touches lines m, w, hw, assemble_eq_unload_iff hw⟩
  · refine ⟨read_touches files path encoding m, ?_⟩
    cases hl : files.lines? path encoding with
    | none => exact iff_of_true (read_of_no_lines hl) fun lines w hlines => by cases hlines
    | some lines =>
      obtain ⟨hr, hm⟩ := read_of_lines (m := m) hl
      rw [hr, map_eq_error_iff] at h
      obtain ⟨w, hw⟩ := exists_error_assemble_iff.1 ⟨f, h⟩
      rw [hm, assemble_eq_unload_iff hw]
      refine ⟨?_, fun hall => hall lines w rfl hw⟩
      rintro hn lines' w' hlines hw'
      cases hlines
      rw [hw] at hw'; cases hw'
      exact hn

/-- A strict machine with an earlier program refuses `a out r1` and is unloaded; so it is by a path
with a NUL in it. -/
theorem failure_unloads_iff_out :
    let m : Machine :=
      { pc := 3, registers := .zeros 1, labels := (∅ : LabelTable).add "z" 0,
        program := #[⟨"z", .out, [.int 0]⟩], steps := 3, mode := .strict }
    (m.assemble ["a out r1"]).1 =
        .error (.assembly (.malformedOperand .out "r1" 1 " out r1")) ∧
      (m.assemble ["a out r1"]).2 = m.unload ∧
      (m.read {} "\x00").result = .error .nulInPath ∧ (m.read {} "\x00").machine = m.unload := by
  intro m
  have h₁ : (m.assemble ["a out r1"]).1 =
      .error (.assembly (.malformedOperand .out "r1" 1 " out r1")) := by rfl
  have h₂ : (m.read {} "\x00").result = .error .nulInPath := by rfl
  obtain ⟨-, w, hw, hiff⟩ := (failure_unloads_iff m).1 _ _ h₁
  obtain ⟨-, hiff'⟩ := (failure_unloads_iff m).2 _ _ _ _ h₂
  have hw' : firstRefused m.mode ["a out r1"] = some ['r', '1'] := by decide
  rw [hw'] at hw; cases hw
  refine ⟨h₁, hiff.2 ?_, h₂, hiff'.2 ?_⟩
  · rintro ⟨hn, -⟩
    cases hn
  · intro lines w hlines
    cases hlines

/-! ## An overlong numeral -/

/-- A line that sends out a register whose number is written with `n` digits. -/
def longLine (n : Nat) : String :=
  String.ofList ('b' :: ' ' :: 'o' :: 'u' :: 't' :: ' ' :: List.replicate n '1')

theorem overlong_ones {n : Nat} (hn : Numeral.maxDigits < n) : Overlong (List.replicate n '1') := by
  obtain ⟨k, rfl⟩ : ∃ k, n = k + 1 := ⟨n - 1, by omega⟩
  have hu : Numeral.unsigned (List.replicate (k + 1) '1') =
      (false, List.replicate (k + 1) '1') := rfl
  refine ⟨?_, by rw [hu, List.length_replicate]; exact hn⟩
  rw [Numeral.isNumeral, hu]
  simp only [List.replicate_succ, List.isEmpty_cons, Bool.not_false, Bool.true_and, List.all_cons,
    List.all_replicate, Bool.and_eq_true]
  exact ⟨rfl, by split <;> rfl⟩

/-- The word of a long line that is refused is its numeral; its label is `b`. -/
theorem firstRefused_longLine (mode : Mode) {n : Nat} (hn : Numeral.maxDigits < n) :
    (nextWord (longLine n).toList).1 = ['b'] ∧
      firstRefused mode [longLine n] = some (List.replicate n '1') := by
  obtain ⟨k, rfl⟩ : ∃ k, n = k + 1 := ⟨n - 1, by omega⟩
  let ones := List.replicate (k + 1) '1'
  have hlast : ∀ (cs : List Char), ∀ c ∈ (cs ++ ones).getLast?, Text.isBlank c = false := by
    intro cs c hc
    simp only [ones, List.getLast?_append, List.getLast?_replicate, Nat.succ_ne_zero, if_false,
      Option.some_or, Option.mem_some_iff] at hc
    subst hc; rfl
  have h₁ : nextWord (longLine (k + 1)).toList =
      (['b'], ' ' :: 'o' :: 'u' :: 't' :: ' ' :: ones) := by
    rw [longLine, String.toList_ofList]
    exact nextWord_append (w := []) rfl (by simp) (by rintro c ⟨⟩; rfl)
      (hlast ['b', ' ', 'o', 'u', 't', ' '])
  have h₂ : nextWord (' ' :: 'o' :: 'u' :: 't' :: ' ' :: ones) =
      (['o', 'u', 't'], ' ' :: ones) :=
    (nextWord_cons_of_isBlank rfl _).trans
      (nextWord_append (w := ['u', 't']) rfl (by simp [isGap]) (by rintro c ⟨⟩; rfl)
        (hlast ['o', 'u', 't', ' ']))
  have h₃ : nextWord (' ' :: ones) = (ones, []) := by
    have hw : nextWord (ones ++ []) = (ones, []) :=
      nextWord_append rfl (by intro c hc; rw [(List.mem_replicate.1 hc).2]; rfl) (by simp)
        (by rw [List.append_nil]; exact hlast [])
    rw [List.append_nil] at hw
    exact (nextWord_cons_of_isBlank rfl _).trans hw
  have hwords : lineIntegers (longLine (k + 1)) = [ones] := by
    rw [lineIntegers, h₁, statementIntegers, h₂]
    show integerWords [.integer] (' ' :: ones) = [ones]
    simp only [integerWords, h₃]
  obtain ⟨e, he⟩ : ∃ e, integerOperand mode ones = .error (.tooLong e) :=
    integerOperand_eq_tooLong_iff.2 (overlong_ones hn)
  have hones : refuses mode ones = true := refuses_eq_true_iff.2 ⟨_, he⟩
  refine ⟨congrArg Prod.fst h₁, ?_⟩
  simp only [firstRefused, List.flatMap_cons, List.flatMap_nil, List.append_nil, hwords,
    List.find?_cons_of_pos hones]
  rfl

theorem labels_assemble_longLine (m : Machine) {n : Nat} (hn : Numeral.maxDigits < n) :
    (∃ f, (m.assemble [longLine n]).1 = .error f) ∧
      (m.assemble [longLine n]).2.labels.names = ["b"] := by
  obtain ⟨hb, hw⟩ := firstRefused_longLine m.mode hn
  refine ⟨exists_error_assemble_iff.2 ⟨_, hw⟩, ?_⟩
  obtain ⟨before, line, after, l, hlines, hl, hm⟩ := assemble_of_overlong hw (overlong_ones hn)
  cases before with
  | nil =>
    obtain ⟨rfl, -⟩ := List.cons.inj hlines
    cases hl
    rw [hm, hb]; rfl
  | cons _ before => simp at hlines

/-- A numeral of 4301 digits makes assembling fail and leaves the label of its line behind. -/
theorem overlong_numeral_leaves_label :
    let m : Machine := { registers := .zeros 1 }
    (∃ f, (m.assemble [longLine 4301]).1 = .error f) ∧
      (m.assemble [longLine 4301]).2.labels.names = ["b"] :=
  labels_assemble_longLine _ (by decide)

end Machine
end SimpleMachine
