import SimpleMachine.Proofs.Agreement
import SimpleMachine.Proofs.Reference

/-!
# SimpleMachine.Proofs.PrintedBank

A bank of registers that has been printed can be fed back.

* `Bank.Written count b`: the bank can be reached from a new one of `count` registers by writing. So
  can every bank of that size (`written_of_size`).
* `Bank.entries`, `Bank.setAll`: index and value of each register, and writing such pairs one after
  the other. All entries of a bank, in any order, rebuild it from another one of its size
  (`setAll_eq_ok`).
* `pieces line`: what stands between the spaces of a line. The pieces of a printed bank are its
  entries, one piece for each (`pieces_shown`), and are read back as them (`map_assignment_pieces`).
* `printed_bank_feeds_back`: hence the pieces of a printed bank rebuild it, also as the options of a
  command line, in any order and among other options.
-/

namespace SimpleMachine

namespace Bank

/-- The banks that can be reached from a new one by writing to registers. -/
inductive Written (count : Int) : Bank → Prop where
  | fresh {b : Bank} : ofCount count = .ok b → Written count b
  | set {b b' : Bank} {index v : Int} : Written count b → b.set index v = .ok b' → Written count b'

/-- The index and the value of each register. -/
def entries (b : Bank) : List (Int × Int) := b.toList.zipIdx.map fun (v, i) => ((i : Int), v)

def setAll (pairs : List (Int × Int)) (b : Bank) : Except BankError Bank :=
  pairs.foldlM (fun b (index, v) => b.set index v) b

theorem setAll_cons (p : Int × Int) (pairs : List (Int × Int)) (b : Bank) :
    setAll (p :: pairs) b = b.set p.1 p.2 >>= setAll pairs := rfl

variable {count : Int} {b b₀ : Bank}

theorem set_eq_ok {index v : Int} {b' : Bank} (h : b.set index v = .ok b') :
    ∃ slot, b' = b.write slot (Int32.ofInt v) := by
  unfold set at h
  cases hs : b.slot? index with
  | none => rw [hs] at h; cases h
  | some slot => rw [hs] at h; cases h; exact ⟨slot, rfl⟩

theorem set_of_lt {slot : Nat} (h : slot < b.size) (v : Int) :
    b.set slot v = .ok (b.write slot (Int32.ofInt v)) := by
  rw [set, slot?_eq_some_iff.2 ⟨h, rfl⟩]

/-- Writing keeps the size, and there is no new bank of more registers than can be addressed. -/
theorem Written.size_eq (h : Written count b) :
    (∃ fresh, ofCount count = .ok fresh) ∧ (b.size : Int) = count := by
  induction h with
  | fresh h => exact ⟨⟨_, h⟩, size_of_ofCount h⟩
  | set _ h ih =>
    obtain ⟨slot, rfl⟩ := set_eq_ok h
    rw [size_write]
    exact ih

/-! ## Writing the values of a bank to another one -/

theorem mem_entries_iff {p : Int × Int} :
    p ∈ b.entries ↔ ∃ slot : Nat, slot < b.size ∧ p = ((slot : Int), (b.read slot).toInt) := by
  have hget : ∀ (v : Int) (slot : Nat), b.toList[slot]? = some v ↔
      slot < b.size ∧ v = (b.read slot).toInt := by
    intro v slot
    unfold size
    by_cases hs : slot < b.values.size
    · simp [toList, read, hs, eq_comm]
    · simp [toList, hs]
  simp only [entries, List.mem_map, Prod.exists, List.mk_mem_zipIdx_iff_getElem?, hget]
  constructor
  · rintro ⟨v, slot, ⟨hs, hv⟩, hp⟩
    exact ⟨slot, hs, by rw [← hp, hv]⟩
  · rintro ⟨slot, hs, hp⟩
    exact ⟨_, slot, ⟨hs, rfl⟩, hp.symm⟩

/-- The registers that are written get the values of the bank, and the others keep their own. -/
theorem setAll_of_entries {order : List (Int × Int)} (h : ∀ p ∈ order, p ∈ b.entries)
    (hs : b₀.size = b.size) :
    ∃ b', setAll order b₀ = .ok b' ∧ b'.size = b.size ∧
      ∀ slot : Nat, b'.read slot =
        if (slot : Int) ∈ order.map Prod.fst then b.read slot else b₀.read slot := by
  induction order generalizing b₀ with
  | nil => exact ⟨b₀, rfl, hs, by simp⟩
  | cons p order ih =>
    obtain ⟨slot, hslot, rfl⟩ := mem_entries_iff.1 (h p List.mem_cons_self)
    have hslot' : slot < b₀.size := by omega
    let b₁ := b₀.write slot (b.read slot)
    have hset : b₀.set slot (b.read slot).toInt = .ok b₁ := by
      rw [set_of_lt hslot', Int32.ofInt_toInt]
    have hrest : ∀ q ∈ order, q ∈ b.entries := fun q hq => h q (List.mem_cons_of_mem _ hq)
    have hs₁ : b₁.size = b.size := (size_write _ _ _).trans hs
    obtain ⟨b', hb', hsize, hread⟩ := ih hrest hs₁
    refine ⟨b', ?_, hsize, ?_⟩
    · rw [setAll_cons, hset]
      exact hb'
    · intro k
      have hkey : (k : Int) ∈ (((slot : Int), (b.read slot).toInt) :: order).map Prod.fst ↔
          k = slot ∨ (k : Int) ∈ order.map Prod.fst := by
        rw [List.map_cons, List.mem_cons, Int.ofNat_inj]
      rw [hread, read_write hslot', if_congr hkey rfl rfl]
      by_cases hk : k = slot
      · simp [hk]
      · simp only [hk, if_false, false_or]

/-- All of the values, in any order, rebuild the bank. -/
theorem setAll_eq_ok {order : List (Int × Int)} (h : ∀ p, p ∈ order ↔ p ∈ b.entries)
    (hs : b₀.size = b.size) : setAll order b₀ = .ok b := by
  obtain ⟨b', hb', hsize, hread⟩ := setAll_of_entries (fun p hp => (h p).1 hp) hs
  have hb : b' = b := by
    refine eq_of_read_eq hsize ?_
    intro slot hslot
    have hmem : (slot : Int) ∈ order.map Prod.fst :=
      List.mem_map.2 ⟨_, (h _).2 (mem_entries_iff.2 ⟨slot, hslot, rfl⟩), rfl⟩
    rw [hread, if_pos hmem]
  rw [hb', hb]

theorem Written.setAll {pairs : List (Int × Int)} {b' : Bank} (h : Written count b)
    (hs : setAll pairs b = .ok b') : Written count b' := by
  induction pairs generalizing b with
  | nil => cases hs; exact h
  | cons p pairs ih =>
    rw [setAll_cons] at hs
    obtain ⟨b₁, h₁, hs⟩ := bind_eq_ok hs
    exact ih (h.set h₁) hs

theorem Written.exists_setAll (h : Written count b) {order : List (Int × Int)}
    (ho : ∀ p, p ∈ order ↔ p ∈ b.entries) :
    ∃ fresh, ofCount count = .ok fresh ∧ Bank.setAll order fresh = .ok b := by
  obtain ⟨⟨fresh, hf⟩, hs⟩ := h.size_eq
  have hsize : fresh.size = b.size := by
    have hfresh := size_of_ofCount hf
    omega
  exact ⟨fresh, hf, setAll_eq_ok ho hsize⟩

theorem written_of_size {fresh : Bank} (hf : ofCount count = .ok fresh)
    (hs : (b.size : Int) = count) : Written count b := by
  have hsize : fresh.size = b.size := by
    have hfresh := size_of_ofCount hf
    omega
  exact (Written.fresh hf).setAll (setAll_eq_ok (fun _ => Iff.rfl) hsize)

end Bank

namespace CommandLine

open Machine

/-! ## The pieces of a printed bank -/

/-- What stands between the spaces of a line. -/
def pieces (line : String) : List String := (line.toList.splitOn ' ').map String.ofList

theorem exists_typedInt {v : Int} (h : Numeral.Short v) :
    ∃ t : TypedInt, t.text = Numeral.text v ∧ t.value = v :=
  ⟨.ofInt v h, rfl, rfl⟩

def assignmentText (p : Int × Int) : String := Numeral.text p.1 ++ "=" ++ Numeral.text p.2

theorem shown_eq (b : Bank) : b.shown = " ".intercalate (b.entries.map assignmentText) := by
  rw [Bank.shown, Bank.entries, List.map_map]
  rfl

theorem space_notMem_assignmentText (p : Int × Int) : ' ' ∉ (assignmentText p).toList := by
  have hnumeral : ∀ v : Int, ' ' ∉ (Numeral.text v).toList := by
    intro v h
    have hspace := ((Source.solid_text v).2 ' ' h).1
    cases hspace
  simp [assignmentText, String.toList_append, hnumeral]

theorem pieces_shown {b : Bank} (hb : 1 ≤ b.size) :
    pieces b.shown = b.entries.map assignmentText := by
  have hne : (b.entries.map assignmentText).map String.toList ≠ [] := by
    have hlen : b.entries.length = b.size := by simp [Bank.entries]
    intro h
    have hzero := congrArg List.length h
    simp only [List.length_map, hlen, List.length_nil] at hzero
    omega
  have hspace : ∀ w ∈ (b.entries.map assignmentText).map String.toList, ' ' ∉ w := by
    intro w hw
    obtain ⟨s, hs, rfl⟩ := List.mem_map.1 hw
    obtain ⟨p, -, rfl⟩ := List.mem_map.1 hs
    exact space_notMem_assignmentText p
  have hlist : b.shown.toList =
      [' '].intercalate ((b.entries.map assignmentText).map String.toList) := by
    rw [shown_eq, String.toList_intercalate]
    rfl
  rw [pieces, hlist, List.splitOn_intercalate ' ' hspace hne]
  simp [Function.comp_def]

/-- The line in which the registers are printed has one piece more. -/
theorem pieces_line (shown : String) :
    pieces ("Registers: " ++ shown) = "Registers:" :: pieces shown := by
  have hline : ("Registers: " ++ shown).toList = "Registers:".toList ++ ' ' :: shown.toList := by
    simp [String.toList_append]
  have hspace : ' ' ∉ "Registers:".toList := by decide
  rw [pieces, hline, List.splitOn_append_cons_self_of_not_mem hspace, List.map_cons,
    String.ofList_toList]
  rfl

/-- Index and value are both so small that they may be typed. -/
theorem assignment_assignmentText {count : Int} {b : Bank} (h : b.Written count) {p : Int × Int}
    (hp : p ∈ b.entries) : assignment (assignmentText p) = .ok p := by
  obtain ⟨⟨fresh, hf⟩, hs⟩ := h.size_eq
  obtain ⟨slot, hslot, rfl⟩ := Bank.mem_entries_iff.1 hp
  obtain ⟨-, hcount⟩ := Bank.count_le_of_ofCount hf
  unfold Bank.maxAddressable at hcount
  have hindex : Numeral.Short slot := Numeral.short_of_natAbs_lt (by omega)
  have hvalue : Numeral.Short (b.read slot).toInt := Numeral.short_of_mem_range (range_toInt _)
  obtain ⟨index, hi, hindex⟩ := exists_typedInt hindex
  obtain ⟨v, hv, hvalue⟩ := exists_typedInt hvalue
  have hread := assignment_typed index v
  rw [hi, hv, hindex, hvalue] at hread
  exact hread

theorem map_assignment_pieces {count : Int} {b : Bank} (h : b.Written count) (hc : 1 ≤ count) :
    (pieces b.shown).map assignment = b.entries.map Except.ok := by
  have hs := h.size_eq.2
  rw [pieces_shown (by omega), List.map_map]
  exact List.map_congr_left fun p hp => assignment_assignmentText h hp

theorem mapM_of_map {ε α β : Type} {f : α → Except ε β} {xs : List α} {ys : List β}
    (h : xs.map f = ys.map Except.ok) : xs.mapM f = .ok ys := by
  induction xs generalizing ys with
  | nil =>
    obtain rfl := List.map_eq_nil_iff.1 h.symm
    rfl
  | cons x xs ih =>
    obtain ⟨y, ys, rfl, hy, hys⟩ := List.map_eq_cons_iff.1 h.symm
    rw [List.mapM_cons, ← hy, ih hys.symm]
    rfl

/-! ## The pieces as options -/

/-- The value of an option `--set`. -/
def Choice.piece? : Choice → Option String
  | .set index v => some (index.text ++ "=" ++ v.text)
  | _ => none

/-- The index and the value that an option `--set` is about. -/
def Choice.entry? : Choice → Option (Int × Int)
  | .set index v => some (index.value, v.value)
  | _ => none

theorem map_assignment_choices (choices : List Choice) :
    (choices.filterMap Choice.piece?).map assignment =
      (choices.filterMap Choice.entry?).map Except.ok := by
  induction choices with
  | nil => rfl
  | cons c choices ih =>
    cases c with
    | set index v =>
      simp only [List.filterMap_cons, Choice.piece?, Choice.entry?, List.map_cons,
        assignment_typed, ih]
    | _ => exact ih

theorem assignments_of_choices (choices : List Choice) (st : Settings) :
    (choices.foldl Choice.settle st).assignments =
      st.assignments ++ (choices.filterMap Choice.entry?).map .value := by
  induction choices generalizing st with
  | nil => simp
  | cons c choices ih =>
    rw [List.foldl_cons, ih]
    cases c with
    | set index v => simp [Choice.settle, Choice.entry?]
    | _ => rfl

theorem assignAll_of_setAll {pairs : List (Int × Int)} {m : Machine} {b : Bank}
    (h : Bank.setAll pairs m.registers = .ok b) :
    m.assignAll pairs = .ok { m with registers := b } := by
  induction pairs generalizing m with
  | nil => cases h; rfl
  | cons p pairs ih =>
    rw [Bank.setAll_cons] at h
    obtain ⟨b₁, h₁, h⟩ := bind_eq_ok h
    have hset : m.setRegister p.1 p.2 = .ok { m with registers := b₁ } := by
      rw [setRegister, h₁]
    rw [assignAll_cons, hset]
    exact ih h

/-- The machine of a command line has the bank that its assignments make of a new one. -/
theorem registers_of_setAll {i : Invocation} {count : Int} {pairs : List (Int × Int)}
    {fresh b : Bank} (hr : i.settings.registers = .value count)
    (ha : i.settings.assignments = pairs.map .value) (hf : Bank.ofCount count = .ok fresh)
    (hs : Bank.setAll pairs fresh = .ok b) :
    ∃ m, i.machine = .ok m ∧ m.registers = b := by
  let m : Machine := { registers := fresh, mode := i.settings.mode }
  have hbuild : Machine.build 0 count i.settings.mode = .ok m := by rw [build, hf]
  have hall : m.assignAll pairs = .ok { m with registers := b } := assignAll_of_setAll hs
  refine ⟨{ m with registers := b }, ?_, rfl⟩
  rw [machine_of_value hr, ha, hbuild]
  show (pairs.map Setting.value).foldlM assignRegister m = _
  rw [assignments_of_values, hall]
  rfl

/-- The options of a command line in which the pieces of a printed bank are given, in any order. -/
theorem registers_of_pieces {count : Int} {b : Bank} (h : b.Written count) (hc : 1 ≤ count)
    {choices : List Choice} {i : Invocation}
    (hi : i.settings = choices.foldl Choice.settle {})
    (hr : i.settings.registers = .value count)
    (hp : (choices.filterMap Choice.piece?).Perm (pieces b.shown)) :
    ∃ m, i.machine = .ok m ∧ m.registers = b := by
  have hperm := hp.map assignment
  rw [map_assignment_choices, map_assignment_pieces h hc] at hperm
  have hmem : ∀ p, p ∈ choices.filterMap Choice.entry? ↔ p ∈ b.entries := by
    intro p
    have hok : ∀ l : List (Int × Int),
        p ∈ l ↔ (Except.ok p : Except UsageError (Int × Int)) ∈ l.map Except.ok := by
      intro l
      simp
    rw [hok, hok b.entries, hperm.mem_iff]
  obtain ⟨fresh, hf, hset⟩ := h.exists_setAll hmem
  refine registers_of_setAll hr ?_ hf hset
  rw [hi, assignments_of_choices, List.nil_append]

/-! ## The line that is printed -/

section Printing

variable {count : Int} {i : Invocation} {m m' : Machine}

theorem written_of_assignments {assignments : List (Setting (Int × Int))}
    (hm : m.registers.Written count) (h : assignments.foldlM assignRegister m = .ok m') :
    m'.registers.Written count := by
  induction assignments generalizing m with
  | nil => cases h; exact hm
  | cons a assignments ih =>
    rw [List.foldlM_cons] at h
    obtain ⟨m₁, ha, h⟩ := bind_eq_ok h
    cases a with
    | dropped => cases ha
    | value p =>
      simp only [assignRegister, setRegister] at ha
      cases hs : m.registers.set p.1 p.2 with
      | error e => rw [hs] at ha; cases ha
      | ok b =>
        rw [hs] at ha
        cases ha
        have hb : b.Written count := hm.set hs
        exact ih hb h

theorem written_of_machine (hr : i.settings.registers = .value count) (h : i.machine = .ok m) :
    m.registers.Written count := by
  rw [machine_of_value hr] at h
  obtain ⟨m₀, hb, h⟩ := bind_eq_ok h
  refine written_of_assignments ?_ h
  unfold build at hb
  cases hc : Bank.ofCount count with
  | error e => rw [hc] at hb; cases hb
  | ok fresh =>
    rw [hc] at hb
    cases hb
    exact .fresh hc

theorem written_of_execute {o : RunOptions} {rounds : Nat} {r : Except Failure Unit}
    (hm : m.registers.Written count) (h : m.execute o rounds = some (r, m')) :
    m'.registers.Written count := by
  obtain ⟨⟨fresh, hf⟩, hs⟩ := hm.size_eq
  obtain ⟨sent, printed, a⟩ := advances_runFor h
  refine Bank.written_of_size hf ?_
  rw [a.size_eq]
  exact hs

theorem ending_failed_ne (stdout stderr : List String) (f : CommandFailure) :
    (Transcript.failed stdout stderr f).ending ≠ .exit 0 := by
  unfold Transcript.failed
  split
  · split <;> nofun
  · nofun

/-- A command that succeeds and is asked for the registers prints them last. -/
theorem printed_of_run {arguments : List String} (hi : Invocation.parse arguments = .ok i)
    (hr : i.settings.registers = .value count) (hp : i.settings.printRegisters = true)
    {files : FileTree} {directory detail : String} {rounds : Nat} {t : Transcript}
    (h : run files directory detail rounds arguments = some t) (ht : t.ending = .exit 0) :
    ∃ b : Bank, b.Written count ∧ t.stdout.getLast? = some ("Registers: " ++ b.shown) := by
  obtain ⟨p, hprepared, hrun⟩ := run_of_parse hi files directory detail rounds
  rw [hrun] at h
  cases hprepared with
  | unbuilt _ => cases h; exact absurd ht (ending_failed_ne _ _ _)
  | unnamed _ _ => cases h; exact absurd ht (ending_failed_ne _ _ _)
  | looped _ _ => cases h; exact absurd ht (ending_failed_ne _ _ _)
  | unreadable _ _ _ _ => cases h; cases ht
  | refused _ _ _ => cases h; exact absurd ht (ending_failed_ne _ _ _)
  | unlimited _ _ _ _ _ => cases h; exact absurd ht (ending_failed_ne _ _ _)
  | @ready m m' lines heading log options hm _ ha _ _ =>
    obtain ⟨⟨r, m₁⟩, hx, rfl⟩ := Option.map_eq_some_iff.1 h
    cases r with
    | error f => exact absurd ht (ending_failed_ne _ _ _)
    | ok u =>
      have hassembled : m'.registers = m.registers := by
        have hregisters := registers_assemble lines m
        rw [ha] at hregisters
        exact hregisters
      have hwritten : m'.registers.Written count := by
        rw [hassembled]
        exact written_of_machine hr hm
      refine ⟨m₁.registers, written_of_execute hwritten hx, ?_⟩
      simp [Job.finish, hp]

end Printing

/-- A bank that can be reached by writing is rebuilt from what is printed of it: every piece is read
as an index and a value, and these may be written to a new bank in any order. So it is when the
pieces of a line that a command has printed are given, as options among others, to a command with
the same number of registers. -/
theorem printed_bank_feeds_back {count : Int} (hc : 1 ≤ count) :
    (∀ b : Bank, b.Written count →
      (∃ pairs, (pieces b.shown).mapM assignment = .ok pairs ∧
        ∀ order : List (Int × Int), order.Perm pairs →
          ∃ fresh, Bank.ofCount count = .ok fresh ∧ Bank.setAll order fresh = .ok b) ∧
      ∀ (before after : List Choice) (front rest : List String) (name : String),
        Given before front → Given after rest → name.startsWith "-" = false →
        ((before ++ after).foldl Choice.settle {}).registers = .value count →
        ((before ++ after).filterMap Choice.piece?).Perm
          (pieces ("Registers: " ++ b.shown)).tail →
        ∃ i m, Invocation.parse (front ++ name :: rest) = .ok i ∧ i.machine = .ok m ∧
          m.registers = b) ∧
    ∀ arguments i files directory detail rounds t, Invocation.parse arguments = .ok i →
      i.settings.registers = .value count → i.settings.printRegisters = true →
      run files directory detail rounds arguments = some t → t.ending = .exit 0 →
      ∃ b : Bank, b.Written count ∧ t.stdout.getLast? = some ("Registers: " ++ b.shown) := by
  refine ⟨?_, ?_⟩
  · intro b hb
    refine ⟨⟨b.entries, ?_, ?_⟩, ?_⟩
    · exact mapM_of_map (map_assignment_pieces hb hc)
    · intro order horder
      exact hb.exists_setAll fun _ => horder.mem_iff
    · intro before after front rest name hbefore hafter hname hregisters hpieces
      rw [pieces_line, List.tail_cons] at hpieces
      obtain ⟨m, hm, hmb⟩ := registers_of_pieces hb hc
        (i := { program := name, settings := (before ++ after).foldl Choice.settle {} }) rfl
        hregisters hpieces
      exact ⟨_, m, parse_given hname hbefore hafter, hm, hmb⟩
  · intro arguments i files directory detail rounds t hi hr hp h ht
    exact printed_of_run hi hr hp h ht

/-- The least integer of a register, options in both forms, and not in the order that is printed;
and a command that prints its registers. -/
theorem printed_bank_feeds_back_three :
    let b : Bank := ⟨#[0, Int32.minValue, 7]⟩
    let files : FileTree := { entries := [(["p"], .file "a lin 2 7".toUTF8)] }
    let printing := ["--registers", "3", "--print-registers", "p"]
    let printed : Transcript := { stdout := ["Registers: 0=0 1=0 2=7"], ending := .exit 0 }
    let arguments := ["--set", "2=7", "--strict", "p", "--registers", "3",
      "--set=1=-2147483648", "--set", "0=0"]
    b.shown = "0=0 1=-2147483648 2=7" ∧
      (∃ fresh, Bank.ofCount 3 = .ok fresh ∧
        Bank.setAll [(2, 7), (0, 0), (1, -2147483648)] fresh = .ok b) ∧
      (∃ i m, Invocation.parse arguments = .ok i ∧ i.machine = .ok m ∧ m.registers = b) ∧
      run files "" "" 2 printing = some printed ∧
      ∃ b' : Bank, b'.Written 3 ∧ printed.stdout.getLast? = some ("Registers: " ++ b'.shown) := by
  intro b files printing printed arguments
  have hfresh : Bank.ofCount 3 = .ok (.zeros 3) := rfl
  have hwritten : b.Written 3 := Bank.written_of_size hfresh rfl
  have hc : (1 : Int) ≤ 3 := by decide
  obtain ⟨hbank, hcommand⟩ := printed_bank_feeds_back hc
  obtain ⟨⟨pairs, hpairs, horder⟩, hoptions⟩ := hbank b hwritten
  have hshown : b.shown = "0=0 1=-2147483648 2=7" := by decide +kernel
  have hread : (pieces b.shown).mapM assignment = .ok b.entries :=
    mapM_of_map (map_assignment_pieces hwritten hc)
  have hparse : Invocation.parse printing = .ok
      { program := "p", settings := { registers := .value 3, printRegisters := true } } := by
    decide +kernel
  have hrun : run files "" "" 2 printing = some printed := by decide +kernel
  refine ⟨hshown, ?_, ?_, hrun, hcommand _ _ _ _ _ _ _ hparse rfl rfl hrun rfl⟩
  · rw [hread] at hpairs
    cases hpairs
    exact horder _ (by decide)
  · let zero : TypedInt := .ofInt 0 (by decide)
    let one : TypedInt := .ofInt 1 (by decide)
    let two : TypedInt := .ofInt 2 (by decide)
    let three : TypedInt := .ofInt 3 (by decide)
    let seven : TypedInt := .ofInt 7 (by decide)
    let least : TypedInt := .ofInt (-2147483648) (by decide)
    have hbefore : Given [.set two seven, .strict] ["--set", "2=7", "--strict"] :=
      .cons (.apart (by decide +kernel) (by simp)) (.cons .joined .nil)
    have hafter : Given [.registers three, .set one least, .set zero zero]
        ["--registers", "3", "--set=1=-2147483648", "--set", "0=0"] :=
      .cons (.apart (by decide +kernel) (by simp))
        (.cons .joined (.cons (.apart (by decide +kernel) (by simp)) .nil))
    exact hoptions _ _ _ _ "p" hbefore hafter (by simp) rfl (by decide +kernel)

end CommandLine
end SimpleMachine
