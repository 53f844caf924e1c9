import SimpleMachine.CommandLine.Invocation
import SimpleMachine.Proofs.Words

/-!
# SimpleMachine.Proofs.Arguments

Command lines in which every option is written in full.

* `integer?_text`: the decimal form of an integer may be typed.
* `TypedInt`: a text that is read as an integer. There is no equals sign in it.
* `Choice`: an option in full, with its argument (`Choice.argument`), what the argument is taken for
  (`classify_argument`) and its effect on the settings (`Choice.settle`).
* `Given choices arguments`: the arguments give these options, each with its value after an equals
  sign or in an argument of its own.
* `parse_given`: the name of a program with options before and after it is understood; the options
  take effect one after the other.
-/

namespace SimpleMachine

theorem Text.digitValue?_of_isDigit {c : Char} (h : c.isDigit = true) :
    Text.digitValue? c = some (c.toNat - 0x30) := by
  have hc : 0x30 ≤ c.toNat ∧ c.toNat ≤ 0x39 := by
    simp only [Char.isDigit, Bool.and_eq_true, decide_eq_true_eq] at h
    exact ⟨h.1, h.2⟩
  have hzero : Text.zeroDigits.find? (fun first => first ≤ c.toNat && c.toNat ≤ first + 9) =
      some 0x30 := by
    rw [← Array.find?_toList]
    exact List.find?_cons_of_pos (by simp [hc.1, hc.2])
  rw [Text.digitValue?, hzero]
  rfl

namespace CommandLine

/-! ## Integers as they are typed -/

theorem digitRun?_of_isDigit {cs : List Char} (hne : cs ≠ []) (h : ∀ c ∈ cs, c.isDigit = true) :
    digitRun? cs = some (cs.map fun c => c.toNat - 0x30) := by
  fun_induction digitRun? cs with
  | case1 => exact absurd rfl hne
  | case2 c => rw [Text.digitValue?_of_isDigit (h c List.mem_cons_self)]; rfl
  | case3 c more ih => exact absurd (h '_' (by simp)) (by decide)
  | case4 c more hmore _ ih =>
    have hrest := ih (by simpa using hmore) fun d hd => h d (List.mem_cons_of_mem c hd)
    rw [Text.digitValue?_of_isDigit (h c List.mem_cons_self), hrest]
    rfl

/-- A run of digits consists of digits and underscores. -/
theorem digitRun?_eq_some {cs : List Char} {ds : List Nat} (h : digitRun? cs = some ds) :
    ∀ c ∈ cs, c = '_' ∨ (Text.digitValue? c).isSome = true := by
  fun_induction digitRun? cs generalizing ds with
  | case1 => cases h
  | case2 c =>
    obtain ⟨d, hd, -⟩ := Option.map_eq_some_iff.1 h
    simp [hd]
  | case3 c more ih =>
    obtain ⟨d, hd, h⟩ := Option.bind_eq_some_iff.1 h
    obtain ⟨ds', hds, -⟩ := Option.bind_eq_some_iff.1 h
    intro e he
    rcases List.mem_cons.1 he with rfl | he
    · exact .inr (by rw [hd]; rfl)
    · rcases List.mem_cons.1 he with rfl | he
      · exact .inl rfl
      · exact ih hds e he
  | case4 c more _ _ ih =>
    obtain ⟨d, hd, h⟩ := Option.bind_eq_some_iff.1 h
    obtain ⟨ds', hds, -⟩ := Option.bind_eq_some_iff.1 h
    intro e he
    rcases List.mem_cons.1 he with rfl | he
    · exact .inr (by rw [hd]; rfl)
    · exact ih hds e he

theorem ofDigits_map (cs : List Char) :
    ofDigits (cs.map fun c => c.toNat - 0x30) = Nat.ofDigitChars 10 cs 0 := by
  rw [ofDigits, List.foldl_map, Nat.ofDigitChars_eq_foldl]
  rfl

theorem isPadding_of_mem_text {v : Int} {c : Char} (h : c ∈ (Numeral.text v).toList) :
    isPadding c = false := by
  rw [isPadding, ((Source.solid_text v).2 c h).2, Bool.false_and]

/-- The decimal form of an integer is read as that integer, if it is not too long. -/
theorem integer?_text {v : Int} (h : Numeral.Short v) :
    integer? (Numeral.text v) = some v := by
  have htrim : Text.trim isPadding (Numeral.text v).toList = (Numeral.text v).toList :=
    Text.trim_eq_self (fun c hc => isPadding_of_mem_text (List.mem_of_mem_head? hc))
      fun c hc => isPadding_of_mem_text (List.mem_of_mem_getLast? hc)
  have hdigits : ∀ c ∈ Nat.toDigits 10 v.natAbs, c.isDigit = true :=
    fun c hc => Numeral.isDigit_of_mem_toDigits hc
  have hrun := digitRun?_of_isDigit Nat.toDigits_ne_nil hdigits
  have hvalue := Numeral.value_text v
  simp only [integer?, htrim, Numeral.unsigned_text, hrun, Option.bind_eq_bind, Option.bind_some,
    List.length_map, if_neg (Nat.not_lt.2 h), ofDigits_map]
  rw [Numeral.value, Numeral.unsigned_text, Numeral.signedValue] at hvalue
  exact congrArg some hvalue

theorem mem_unsigned {cs : List Char} {c : Char} (h : c ∈ cs) (hm : c ≠ '-') (hp : c ≠ '+') :
    c ∈ (Numeral.unsigned cs).2 := by
  unfold Numeral.unsigned
  split
  · exact (List.mem_cons.1 h).resolve_left hm
  · exact (List.mem_cons.1 h).resolve_left hp
  · exact h

theorem no_equals_of_integer {s : String} {v : Int} (h : integer? s = some v) :
    '=' ∉ s.toList := by
  intro hs
  obtain ⟨ds, hds, -⟩ := Option.bind_eq_some_iff.1 h
  have hrun : '=' ∈ (Numeral.unsigned (Text.trim isPadding s.toList)).2 :=
    mem_unsigned (Text.mem_trim hs rfl) (by decide) (by decide)
  rcases digitRun?_eq_some hds '=' hrun with h | h
  · exact absurd h (by decide)
  · exact absurd h (by decide)

/-- A text that is read as an integer. -/
structure TypedInt where
  text : String
  value : Int
  reads : integer? text = some value

/-- An integer in decimal form. -/
def TypedInt.ofInt (v : Int) (h : Numeral.Short v) : TypedInt :=
  ⟨Numeral.text v, v, integer?_text h⟩

theorem TypedInt.ne_dropped (n : TypedInt) : n.text ≠ "--" := by
  intro h
  have hn := n.reads
  have hd : integer? "--" = none := by decide
  rw [h, hd] at hn
  cases hn

/-! ## Options in full -/

/-- An option that is written in full and asks for something other than the help text. -/
inductive Choice where
  | registers (n : TypedInt)
  | set (index v : TypedInt)
  | maxSteps (n : TypedInt)
  | strict
  | trace
  | dump
  | printRegisters
  | verbose

namespace Choice

def argument : Choice → String
  | .registers n => "--registers" ++ "=" ++ n.text
  | .set index v => "--set" ++ "=" ++ (index.text ++ "=" ++ v.text)
  | .maxSteps n => "--max-steps" ++ "=" ++ n.text
  | .strict => "--strict"
  | .trace => "--trace"
  | .dump => "--dump"
  | .printRegisters => "--print-registers"
  | .verbose => "--verbose"

/-- What the argument is taken for. -/
def taken : Choice → Argument
  | .registers n => .option "--registers" (.parameter .registers) (some n.text)
  | .set index v => .option "--set" (.parameter .set) (some (index.text ++ "=" ++ v.text))
  | .maxSteps n => .option "--max-steps" (.parameter .maxSteps) (some n.text)
  | .strict => .option "--strict" (.flag .strict) none
  | .trace => .option "--trace" (.flag .trace) none
  | .dump => .option "--dump" (.flag .dump) none
  | .printRegisters => .option "--print-registers" (.flag .printRegisters) none
  | .verbose => .option "--verbose" (.flag .verbose) none

/-- The option and its value, if it has one. -/
def parts? : Choice → Option (String × String)
  | .registers n => some ("--registers", n.text)
  | .set index v => some ("--set", index.text ++ "=" ++ v.text)
  | .maxSteps n => some ("--max-steps", n.text)
  | .strict | .trace | .dump | .printRegisters | .verbose => none

def settle (s : Settings) : Choice → Settings
  | .registers n => { s with registers := .value n.value }
  | .set index v => { s with assignments := s.assignments ++ [.value (index.value, v.value)] }
  | .maxSteps n => { s with limit := some (.value n.value) }
  | .strict => { s with strict := true }
  | .trace => { s with trace := true }
  | .dump => { s with dump := true }
  | .printRegisters => { s with printRegisters := true }
  | .verbose => { s with verbose := true }

/-- The arguments that give an option. A value in an argument of its own does not start with a
hyphen. -/
inductive Given (c : Choice) : List String → Prop where
  | joined : Given c [c.argument]
  | apart {option value : String} :
      c.parts? = some (option, value) → value.startsWith "-" = false → Given c [option, value]

end Choice

/-- The arguments give the options one after the other. -/
inductive Given : List Choice → List String → Prop where
  | nil : Given [] []
  | cons {c : Choice} {choices : List Choice} {arguments more : List String} :
      c.Given arguments → Given choices more → Given (c :: choices) (arguments ++ more)

theorem given_arguments (choices : List Choice) : Given choices (choices.map Choice.argument) := by
  induction choices with
  | nil => exact .nil
  | cons c choices ih =>
    have hcons : Given (c :: choices) ([c.argument] ++ choices.map Choice.argument) :=
      .cons .joined ih
    exact hcons

theorem mem_append_equals (before after : String) : '=' ∈ (before ++ "=" ++ after).toList := by
  simp [String.toList_append]

theorem append_equals_ne_separator (before after : String) : before ++ "=" ++ after ≠ "--" := by
  intro h
  have hmem := mem_append_equals before after
  rw [h] at hmem
  exact absurd hmem (by decide)

theorem splitAtEquals_append {before : String} (h : '=' ∉ before.toList) (after : String) :
    splitAtEquals (before ++ "=" ++ after) = (before, some after) := by
  have hall : ∀ c ∈ before.toList, (c != '=') = true := by
    intro c hc
    exact bne_iff_ne.2 fun he => h (he ▸ hc)
  have htext : (before ++ "=" ++ after).toList = before.toList ++ '=' :: after.toList := by
    simp [String.toList_append]
  have htake : (before ++ "=" ++ after).toList.takeWhile (· != '=') = before.toList := by
    rw [htext, List.takeWhile_append_of_pos hall]
    simp
  have hdrop : (before ++ "=" ++ after).toList.dropWhile (· != '=') = '=' :: after.toList := by
    rw [htext, List.dropWhile_append_of_pos hall]
    rfl
  simp only [splitAtEquals, htake, hdrop, String.ofList_toList]

/-- There is no equals sign in the spelling of an option. -/
theorem ofSpelling?_of_equals {s : String} (h : '=' ∈ s.toList) : Switch.ofSpelling? s = none := by
  have hplain : ∀ e ∈ Switch.spellings, '=' ∉ e.1.toList := by decide
  rw [Switch.ofSpelling?, List.lookup_eq_none_iff]
  intro e he
  rw [bne_iff_ne]
  rintro rfl
  exact hplain e he h

theorem classify_valued {spelling : String} {s : Switch} (hs : Switch.ofSpelling? spelling = some s)
    (hn : '=' ∉ spelling.toList) (hd : spelling.startsWith "-" = true) (value : String) :
    Argument.classify (spelling ++ "=" ++ value) = .ok (.option spelling s (some value)) := by
  have hmem := mem_append_equals spelling value
  have hstart : (spelling ++ "=" ++ value).startsWith "-" = true := by
    rw [String.startsWith_string_iff] at hd ⊢
    rw [String.append_assoc, String.toList_append]
    exact hd.trans (List.prefix_append _ _)
  have hoption : ¬ (spelling ++ "=" ++ value = "" ∨ spelling ++ "=" ++ value = "-" ∨
      (!(spelling ++ "=" ++ value).startsWith "-") = true) := by
    rw [hstart]
    rintro (h | h | h)
    · rw [h] at hmem; exact absurd hmem (by decide)
    · rw [h] at hmem; exact absurd hmem (by decide)
    · cases h
  rw [Argument.classify, if_neg hoption, ofSpelling?_of_equals hmem]
  simp only [splitAtEquals_append hn, Option.isSome_some, if_true, hs]

theorem classify_argument (c : Choice) : Argument.classify c.argument = .ok c.taken := by
  cases c with
  | registers n => exact classify_valued (by decide) (by decide) (by simp) n.text
  | set index v => exact classify_valued (by decide) (by decide) (by simp) _
  | maxSteps n => exact classify_valued (by decide) (by decide) (by simp) n.text
  | _ => decide +kernel

/-! ## A whole command line -/

theorem classifyAll_cons {s : String} {a : Argument} (h : Argument.classify s = .ok a)
    (hs : s ≠ "--") (more : List String) :
    Argument.classifyAll (s :: more) = (Argument.classifyAll more).map (a :: ·) := by
  rw [Argument.classifyAll]
  · rw [h]
    cases Argument.classifyAll more <;> rfl
  · exact hs

theorem argument_ne_separator (c : Choice) : c.argument ≠ "--" := by
  cases c with
  | registers n => exact append_equals_ne_separator _ _
  | set index v => exact append_equals_ne_separator _ _
  | maxSteps n => exact append_equals_ne_separator _ _
  | _ => decide

theorem classify_positional {s : String} (h : s.startsWith "-" = false) :
    Argument.classify s = .ok (.positional s) := by
  rw [Argument.classify, if_pos (.inr (.inr (by rw [h]; rfl)))]

theorem ne_separator_of_positional {s : String} (h : s.startsWith "-" = false) : s ≠ "--" := by
  intro hs
  subst hs
  simp at h

theorem read_typed (q : Parameter) (n : TypedInt) :
    Setting.read (integerFor q) n.text = .ok (.value n.value) := by
  rw [Setting.read, if_neg n.ne_dropped, integerFor, n.reads]
  rfl

theorem assignment_typed (index v : TypedInt) :
    assignment (index.text ++ "=" ++ v.text) = .ok (index.value, v.value) := by
  rw [assignment, splitAtEquals_append (no_equals_of_integer index.reads)]
  simp only [index.reads, v.reads]

theorem read_assignment (index v : TypedInt) :
    Setting.read assignment (index.text ++ "=" ++ v.text) =
      .ok (.value (index.value, v.value)) := by
  rw [Setting.read, if_neg (append_equals_ne_separator _ _), assignment_typed]
  rfl

/-- A choice takes effect and the rest of the command line is looked at. -/
theorem consume_taken (c : Choice) (more : List Argument) (p : Progress) :
    Progress.consume (c.taken :: more) p =
      Progress.consume more { p with settings := c.settle p.settings } := by
  cases c with
  | registers n =>
    rw [Choice.taken, Progress.consume, Progress.assign, Settings.assign, read_typed]
    rfl
  | set index v =>
    rw [Choice.taken, Progress.consume, Progress.assign, Settings.assign, read_assignment]
    rfl
  | maxSteps n =>
    rw [Choice.taken, Progress.consume, Progress.assign, Settings.assign, read_typed]
    rfl
  | _ => rw [Choice.taken, Progress.consume]; rfl

/-- What arguments are taken for if they give options: they are understood one after the other, and
the options take effect. -/
structure TakenFor (choices : List Choice) (arguments : List String) (taken : List Argument) :
    Prop where
  classifyAll_append : ∀ more, Argument.classifyAll (arguments ++ more) =
    (Argument.classifyAll more).map (taken ++ ·)
  consume_append : ∀ more p, Progress.consume (taken ++ more) p =
    Progress.consume more { p with settings := choices.foldl Choice.settle p.settings }
  starts : ∀ a ∈ taken.head?, a ≠ .separator

namespace TakenFor

theorem nil : TakenFor [] [] [] where
  classifyAll_append more := by
    rw [List.nil_append]
    cases Argument.classifyAll more <;> rfl
  consume_append _ _ := rfl
  starts := by simp

theorem append {choices choices' : List Choice} {arguments arguments' : List String}
    {taken taken' : List Argument} (h : TakenFor choices arguments taken)
    (h' : TakenFor choices' arguments' taken') :
    TakenFor (choices ++ choices') (arguments ++ arguments') (taken ++ taken') where
  classifyAll_append more := by
    rw [List.append_assoc, h.classifyAll_append, h'.classifyAll_append]
    cases Argument.classifyAll more with
    | error e => rfl
    | ok more => simp [Except.map]
  consume_append more p := by
    rw [List.append_assoc, h.consume_append, h'.consume_append, List.foldl_append]
  starts := by
    intro a ha
    rw [List.head?_append] at ha
    cases taken with
    | nil => exact h'.starts a ha
    | cons a' taken => exact h.starts a ha

theorem joined (c : Choice) : TakenFor [c] [c.argument] [c.taken] where
  classifyAll_append more := by
    rw [List.singleton_append, classifyAll_cons (classify_argument c) (argument_ne_separator c)]
    rfl
  consume_append more p := consume_taken c more p
  starts := by
    intro a ha
    cases ha
    cases c <;> nofun

theorem apart {c : Choice} {option value : String} (hc : c.parts? = some (option, value))
    (hv : value.startsWith "-" = false) :
    ∃ taken, TakenFor [c] [option, value] taken := by
  obtain ⟨q, hoption, htaken⟩ : ∃ q, Switch.ofSpelling? option = some (.parameter q) ∧
      c.taken = .option option (.parameter q) (some value) := by
    cases c <;> cases hc <;> exact ⟨_, rfl, rfl⟩
  have hclassify : Argument.classify option = .ok (.option option (.parameter q) none) := by
    cases c <;> cases hc <;> cases hoption <;> decide +kernel
  have hsep : option ≠ "--" := by
    cases c <;> cases hc <;> decide
  refine ⟨[.option option (.parameter q) none, .positional value], ?_, ?_, ?_⟩
  · intro more
    rw [List.cons_append, classifyAll_cons hclassify hsep, List.singleton_append,
      classifyAll_cons (classify_positional hv) (ne_separator_of_positional hv)]
    cases Argument.classifyAll more <;> rfl
  · intro more p
    -- the value is read as if it stood after an equals sign
    have hread := consume_taken c more p
    rw [htaken] at hread
    exact hread
  · intro a ha
    cases ha
    nofun

end TakenFor

theorem exists_takenFor {choices : List Choice} {arguments : List String}
    (h : Given choices arguments) : ∃ taken, TakenFor choices arguments taken := by
  induction h with
  | nil => exact ⟨[], .nil⟩
  | @cons c choices arguments more hc _ ih =>
    obtain ⟨rest, hrest⟩ := ih
    cases hc with
    | joined => exact ⟨_, (TakenFor.joined c).append hrest⟩
    | apart hparts hv =>
      obtain ⟨taken, htaken⟩ := TakenFor.apart hparts hv
      exact ⟨_, htaken.append hrest⟩

theorem consume_name {taken : List Argument} (h : ∀ a ∈ taken.head?, a ≠ .separator)
    (name : String) (p : Progress) :
    Progress.consume (.positional name :: taken) p =
      Progress.consume taken (p.take name [name]) := by
  cases taken with
  | nil => rfl
  | cons a taken =>
    cases a with
    | separator => exact absurd rfl (h _ rfl)
    | _ => rfl

/-- The name of a program with options before and after it: the options take effect in their order,
wherever they stand. -/
theorem parse_given {name : String} (hd : name.startsWith "-" = false) {before after : List Choice}
    {front rest : List String} (hb : Given before front) (ha : Given after rest) :
    Invocation.parse (front ++ name :: rest) =
      .ok { program := name, settings := (before ++ after).foldl Choice.settle {} } := by
  obtain ⟨taken, ht⟩ := exists_takenFor hb
  obtain ⟨taken', ht'⟩ := exists_takenFor ha
  have hrest : Argument.classifyAll rest = .ok taken' := by
    have h := ht'.classifyAll_append []
    rw [List.append_nil] at h
    rw [h, Argument.classifyAll, Except.map, List.append_nil]
  have hall : Argument.classifyAll (front ++ name :: rest) =
      .ok (taken ++ .positional name :: taken') := by
    rw [ht.classifyAll_append, classifyAll_cons (classify_positional hd)
      (ne_separator_of_positional hd), hrest]
    rfl
  have hconsume := ht'.consume_append []
  simp only [List.append_nil] at hconsume
  simp only [Invocation.parse, hall, ht.consume_append, consume_name ht'.starts, hconsume,
    Except.mapError, bind, Except.bind, Progress.consume, Progress.take, List.foldl_append]

theorem parse_choices {name : String} (_ : name ≠ "") (hd : name.startsWith "-" = false)
    (before after : List Choice) :
    Invocation.parse (before.map Choice.argument ++ name :: after.map Choice.argument) =
      .ok { program := name, settings := (before ++ after).foldl Choice.settle {} } :=
  parse_given hd (given_arguments before) (given_arguments after)

end CommandLine
end SimpleMachine
