import Mathlib.Data.List.DropRight
import SimpleMachine.Proofs.Digits

/-!
# SimpleMachine.Proofs.Words

Lines that are written word by word with single spaces, with numerals among the words.

* `trimEnd_eq_self`, `trim_trim`, `trim_congr`: what trimming leaves alone. It does not matter which
  end is trimmed first (`trim_eq_dropWhile_trimEnd`).
* `Solid w`: a word in which no trimming and no reading finds a place to cut.
* `fst_nextWord_eq_nil_iff`: the lines without a word are those of blanks only. What a word leaves
  starts with a gap, and ends as the trimmed line (`trimEnd_snd_nextWord`).
* `spaced ws`: the words, each after a space. Reading takes the words off one by one
  (`nextWord_words`, `nextWord_spaced`), and trimming leaves all of them (`trimEnd_words`).
-/

namespace SimpleMachine

namespace Text

variable {p q : Char → Bool} {cs : List Char}

theorem trimEnd_eq_self (h : ∀ c ∈ cs.getLast?, p c = false) : trimEnd p cs = cs := by
  refine List.rdropWhile_eq_self_iff.2 fun hne => ?_
  simpa using h _ (List.getLast?_eq_some_getLast hne)

theorem trimEnd_concat {c : Char} (h : p c = true) : trimEnd p (cs ++ [c]) = trimEnd p cs :=
  List.rdropWhile_concat_pos p cs c h

theorem eq_false_of_mem_getLast?_trim {c : Char} (h : c ∈ (trim p cs).getLast?) : p c = false := by
  have hne : (cs.dropWhile p).rdropWhile p ≠ [] := by
    intro e
    rw [trim, trimEnd, ← List.rdropWhile, e] at h
    cases h
  have hlast := List.rdropWhile_last_not p (cs.dropWhile p) hne
  rw [trim, trimEnd, ← List.rdropWhile, List.getLast?_eq_some_getLast hne] at h
  cases h
  simpa using hlast

theorem mem_of_mem_trim {c : Char} (h : c ∈ trim p cs) : c ∈ cs :=
  (List.dropWhile_sublist p).mem ((List.rdropWhile_prefix p (cs.dropWhile p)).mem h)

theorem mem_trim {c : Char} (h : c ∈ cs) (hp : p c = false) : c ∈ trim p cs := by
  have keep : ∀ ds : List Char, c ∈ ds → c ∈ ds.dropWhile p := by
    intro ds hd
    rw [← List.takeWhile_append_dropWhile (p := p) (l := ds), List.mem_append] at hd
    rcases hd with hd | hd
    · exact absurd (List.mem_takeWhile_imp hd) (by rw [hp]; exact Bool.false_ne_true)
    · exact hd
  rw [trim, trimEnd, List.mem_reverse]
  exact keep _ (List.mem_reverse.2 (keep cs h))

theorem eq_false_of_mem_head?_trim {c : Char} (h : c ∈ (trim p cs).head?) : p c = false := by
  obtain ⟨rest, hrest⟩ := List.head?_eq_some_iff.1 h
  exact eq_false_of_trim_eq_cons hrest

theorem trim_trim : trim p (trim p cs) = trim p cs :=
  trim_eq_self (fun _ hc => eq_false_of_mem_head?_trim hc)
    fun _ hc => eq_false_of_mem_getLast?_trim hc

theorem trimEnd_eq_nil_iff : trimEnd p cs = [] ↔ ∀ c ∈ cs, p c = true :=
  List.rdropWhile_eq_nil_iff

theorem trimEnd_append (cs ds : List Char) :
    trimEnd p (cs ++ ds) = if trimEnd p ds = [] then trimEnd p cs else cs ++ trimEnd p ds := by
  rw [trimEnd, trimEnd, trimEnd, List.reverse_append, List.dropWhile_append]
  cases ds.reverse.dropWhile p with
  | nil => simp
  | cons d rest => simp

/-- It does not matter which end is trimmed first. -/
theorem trim_eq_dropWhile_trimEnd (p : Char → Bool) (cs : List Char) :
    trim p cs = (trimEnd p cs).dropWhile p := by
  unfold trim
  induction cs with
  | nil => rfl
  | cons c cs ih =>
    have hcons := trimEnd_append (p := p) [c] cs
    rw [List.singleton_append] at hcons
    by_cases hc : p c = true
    · rw [List.dropWhile_cons_of_pos hc, ih, hcons]
      split
      · rename_i hnil
        rw [hnil, trimEnd_eq_nil_iff.2 (by simpa using hc)]
      · exact (List.dropWhile_cons_of_pos hc).symm
    · have hsingle : trimEnd p [c] = [c] := trimEnd_eq_self (by simpa using hc)
      have hkeep : trimEnd p (c :: cs) = c :: trimEnd p cs := by
        rw [hcons, hsingle]
        split
        · rename_i hnil
          rw [hnil]
        · rfl
      rw [List.dropWhile_cons_of_neg hc, hkeep, List.dropWhile_cons_of_neg hc]

theorem trim_eq_nil_iff : trim p cs = [] ↔ ∀ c ∈ cs, p c = true := by
  have hdrop : trim p cs = [] ↔ ∀ c ∈ cs.dropWhile p, p c = true := trimEnd_eq_nil_iff
  rw [hdrop]
  constructor
  · intro h c hc
    rw [← List.takeWhile_append_dropWhile (p := p) (l := cs), List.mem_append] at hc
    rcases hc with hc | hc
    · exact List.mem_takeWhile_imp hc
    · exact h c hc
  · intro h c hc
    exact h c ((List.dropWhile_sublist p).mem hc)

theorem dropWhile_congr (h : ∀ c ∈ cs, p c = q c) : cs.dropWhile p = cs.dropWhile q := by
  induction cs with
  | nil => rfl
  | cons c cs ih =>
    rw [List.dropWhile_cons, List.dropWhile_cons, h c List.mem_cons_self,
      ih fun d hd => h d (List.mem_cons_of_mem c hd)]

theorem trim_congr (h : ∀ c ∈ cs, p c = q c) : trim p cs = trim q cs := by
  have hrest : ∀ c ∈ (cs.dropWhile q).reverse, p c = q c := by
    intro c hc
    exact h c ((List.dropWhile_sublist q).mem (List.mem_reverse.1 hc))
  rw [trim, trim, dropWhile_congr h, trimEnd, trimEnd, dropWhile_congr hrest]

end Text

/-! ## Words separated by single spaces -/

namespace Source

/-- The word is there, and none of its characters is trimmed away or ends a word. -/
def Solid (w : List Char) : Prop :=
  w ≠ [] ∧ ∀ c ∈ w, Text.isBlank c = false ∧ Text.isSpace c = false

instance (w : List Char) : Decidable (Solid w) :=
  decidable_of_iff (w ≠ [] ∧ (w.all fun c => !Text.isBlank c && !Text.isSpace c) = true)
    (by simp [Solid])

/-- The words, each after a space. -/
def spaced (ws : List (List Char)) : List Char := ws.flatMap (' ' :: ·)

@[simp]
theorem spaced_nil : spaced [] = [] := rfl

@[simp]
theorem spaced_cons (w : List Char) (ws : List (List Char)) :
    spaced (w :: ws) = ' ' :: (w ++ spaced ws) := rfl

theorem intercalate_cons (w : List Char) (ws : List (List Char)) :
    [' '].intercalate (w :: ws) = w ++ spaced ws := by
  induction ws generalizing w with
  | nil => simp
  | cons w' ws ih => rw [List.intercalate_cons_cons, ih, spaced_cons]; simp

theorem Solid.not_isGap {w : List Char} (h : Solid w) {c : Char} (hc : c ∈ w) :
    isGap c = false :=
  isGap_eq_false_of_isBlank (h.2 c hc).1

theorem Solid.append {w w' : List Char} (h : Solid w) (h' : Solid w') : Solid (w ++ w') := by
  refine ⟨by simp [h.1], fun c hc => ?_⟩
  rcases List.mem_append.1 hc with hc | hc
  · exact h.2 c hc
  · exact h'.2 c hc

theorem solid_digits {ds : List Char} (hne : ds ≠ []) (h : ∀ c ∈ ds, c.isDigit = true) :
    Solid ds := by
  refine ⟨hne, fun c hc => ?_⟩
  have hlo : 48 ≤ c.toNat := (Char.isDigit_iff_toNat.1 (h c hc)).1
  have hhi : c.toNat ≤ 57 := (Char.isDigit_iff_toNat.1 (h c hc)).2
  simp only [Text.isBlank, Text.isSpace, decide_eq_false_iff_not, Bool.or_eq_false_iff,
    Bool.and_eq_false_iff, beq_eq_false_iff_ne]
  omega

theorem solid_text (v : Int) : Solid (Numeral.text v).toList := by
  have hd : Solid (Nat.toDigits 10 v.natAbs) :=
    solid_digits Nat.toDigits_ne_nil fun c hc => Numeral.isDigit_of_mem_toDigits hc
  rw [Numeral.text, String.toList_ofList]
  split
  · exact Solid.append (w := ['-']) (by decide) hd
  · exact hd

theorem solid_name (op : Opcode) : Solid op.name.toList := by
  cases op <;> decide

/-- A line of words ends as the last of them does. -/
theorem getLast?_words {w : List Char} {ws : List (List Char)} (h : ∀ v ∈ ws, v ≠ []) :
    (w ++ spaced ws).getLast? = ((w :: ws).getLast (by simp)).getLast? := by
  -- the last character is in the last word, which becomes `w` at the end of the list
  induction ws generalizing w with
  | nil => simp
  | cons v ws ih =>
    have hne : v ++ spaced ws ≠ [] := by simp [h v (by simp)]
    have hlast := ih (w := v) fun u hu => h u (by simp [hu])
    rw [spaced_cons, List.append_cons, List.getLast?_append,
      List.getLast?_eq_some_getLast hne, Option.some_or, ← List.getLast?_eq_some_getLast hne, hlast]
    simp

/-- A line of solid words ends in a character that is not trimmed. -/
theorem last_of_words {w : List Char} {ws : List (List Char)} (hw : Solid w)
    (hws : ∀ w' ∈ ws, Solid w') {c : Char} (hc : c ∈ (w ++ spaced ws).getLast?) :
    Text.isBlank c = false ∧ Text.isSpace c = false := by
  have hsolid : ∀ v ∈ w :: ws, Solid v := List.forall_mem_cons.2 ⟨hw, hws⟩
  rw [getLast?_words fun v hv => (hws v hv).1] at hc
  exact (hsolid _ (List.getLast_mem _)).2 c (List.mem_of_getLast? hc)

/-- A word starts where the trimmed line does. -/
theorem eq_false_of_mem_head?_nextWord {line : List Char} {c : Char}
    (h : c ∈ (nextWord line).1.head?) : Text.isBlank c = false := by
  have hline : c ∈ (Text.trim Text.isBlank line).head? := by
    rw [← fst_append_snd_nextWord, List.head?_append, Option.mem_def.1 h, Option.some_or]
    rfl
  exact Text.eq_false_of_mem_head?_trim hline

/-- What a word leaves starts with the gap that ends the word. -/
theorem isGap_of_mem_head?_nextWord {line : List Char} {c : Char}
    (h : c ∈ (nextWord line).2.head?) : isGap c = true := by
  have hstop := List.head?_dropWhile_not (fun c => !isGap c) (Text.trim Text.isBlank line)
  have hrest : (Text.trim Text.isBlank line).dropWhile (fun c => !isGap c) = (nextWord line).2 :=
    rfl
  rw [hrest, Option.mem_def.1 h] at hstop
  simpa using hstop

/-- What a word leaves ends where the trimmed line ended. -/
theorem eq_false_of_mem_getLast?_nextWord {line : List Char} {c : Char}
    (h : c ∈ (nextWord line).2.getLast?) : Text.isBlank c = false := by
  have hline : c ∈ (Text.trim Text.isBlank line).getLast? := by
    rw [← fst_append_snd_nextWord, List.getLast?_append, Option.mem_def.1 h, Option.some_or]
    rfl
  exact Text.eq_false_of_mem_getLast?_trim hline

theorem trimEnd_snd_nextWord (line : List Char) :
    Text.trimEnd Text.isBlank (nextWord line).2 = (nextWord line).2 :=
  Text.trimEnd_eq_self fun _ hc => eq_false_of_mem_getLast?_nextWord hc

theorem nextWord_trim (line : List Char) :
    nextWord (Text.trim Text.isBlank line) = nextWord line := by
  rw [nextWord, Text.trim_trim, nextWord]

/-- A line has no word exactly when all of its characters are blank. -/
theorem fst_nextWord_eq_nil_iff {line : List Char} :
    (nextWord line).1 = [] ↔ ∀ c ∈ line, Text.isBlank c = true := by
  constructor
  · intro h
    rw [← Text.trim_eq_nil_iff, ← fst_append_snd_nextWord, h, snd_nextWord_of_fst_eq_nil h]
    rfl
  · intro h
    rw [nextWord, Text.trim_eq_nil_iff.2 h]
    rfl

/-- A solid word is taken off the line at the first gap. -/
theorem nextWord_solid {w rest : List Char} (hw : Solid w)
    (hr : ∀ c ∈ rest.head?, isGap c = true)
    (hl : ∀ c ∈ (w ++ rest).getLast?, Text.isBlank c = false) :
    nextWord (w ++ rest) = (w, rest) := by
  cases w with
  | nil => exact absurd rfl hw.1
  | cons a w =>
    exact nextWord_append (hw.2 a (by simp)).1 (fun c hc => hw.not_isGap (by simp [hc])) hr hl

theorem nextWord_words {w : List Char} {ws : List (List Char)} (hw : Solid w)
    (hws : ∀ w' ∈ ws, Solid w') : nextWord (w ++ spaced ws) = (w, spaced ws) := by
  refine nextWord_solid hw ?_ fun c hc => (last_of_words hw hws hc).1
  cases ws with
  | nil => simp
  | cons w' ws => rintro c ⟨⟩; rfl

theorem nextWord_spaced {w : List Char} {ws : List (List Char)} (hws : ∀ w' ∈ w :: ws, Solid w') :
    nextWord (spaced (w :: ws)) = (w, spaced ws) := by
  rw [spaced_cons, nextWord_cons_of_isBlank rfl]
  exact nextWord_words (hws w (by simp)) fun w' hw' => hws w' (by simp [hw'])

theorem trimEnd_words {w : List Char} {ws : List (List Char)} (hw : Solid w)
    (hws : ∀ w' ∈ ws, Solid w') : Text.trimEnd Text.isSpace (w ++ spaced ws) = w ++ spaced ws :=
  Text.trimEnd_eq_self fun _ hc => (last_of_words hw hws hc).2

end Source
end SimpleMachine
