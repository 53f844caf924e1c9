import SimpleMachine.Proofs.Layout

/-!
# SimpleMachine.Proofs.Tokens

Taking word after word off a line cuts it into tokens from left to right, in one pass.

* `scanned line k`: the word that is taken off after `k` others, and what is left then.
* `tokensFrom text`, `tokens line`: the right end of the line is trimmed once, and then tokens are cut
  off at the gaps, where each loses the blanks before it. This gives the words of the line
  (`tokens_eq_words`), and so each call cuts off the first of them (`tokens_eq`).
* `IsToken w`: the words that can come out. Joined by single spaces, they come out again
  (`tokens_words`).
* `scanning_is_tokenizing`: the words of all calls, what is left after each, and the way back.
-/

namespace SimpleMachine

theorem Text.eq_false_of_dropWhile_eq_cons {p : Char → Bool} {cs rest : List Char} {c : Char}
    (h : cs.dropWhile p = c :: rest) : p c = false := by
  have hhead := List.head?_dropWhile_not p cs
  simpa [h] using hhead

namespace Source

/-- The word that is taken off a line after `k` others, and what is left of the line then. -/
def scanned (line : List Char) : Nat → List Char × List Char
  | 0 => nextWord line
  | k + 1 => nextWord (scanned line k).2

theorem length_dropWhile_not_isGap_lt {text rest : List Char} {c : Char}
    (h : text.dropWhile Text.isBlank = c :: rest) :
    ((c :: rest).dropWhile fun c => !isGap c).length < text.length := by
  have hgap : isGap c = false :=
    isGap_eq_false_of_isBlank (Text.eq_false_of_dropWhile_eq_cons h)
  have htext : (c :: rest).length ≤ text.length := by
    rw [← h]
    exact (List.dropWhile_sublist _).length_le
  have hrest : (rest.dropWhile fun c => !isGap c).length ≤ rest.length :=
    (List.dropWhile_sublist _).length_le
  rw [List.dropWhile_cons_of_pos (by simp [hgap])]
  rw [List.length_cons] at htext
  omega

/-- The tokens of a text: the blanks before a token are dropped, the token is what stands before the
next gap, and what follows is cut in the same way. -/
def tokensFrom (text : List Char) : List (List Char) :=
  match _h : text.dropWhile Text.isBlank with
  | [] => []
  | c :: rest =>
    (c :: rest).takeWhile (fun c => !isGap c) ::
      tokensFrom ((c :: rest).dropWhile fun c => !isGap c)
termination_by text.length
decreasing_by exact length_dropWhile_not_isGap_lt _h

/-- The tokens of a line, whose right end is trimmed first. -/
def tokens (line : List Char) : List (List Char) := tokensFrom (Text.trimEnd Text.isBlank line)

/-- The word starts with a character that is no blank, and there is no gap in it. -/
structure IsToken (w : List Char) : Prop where
  starts : ∃ c ∈ w.head?, Text.isBlank c = false
  noGap : ∀ c ∈ w, isGap c = false

theorem isToken_iff {w : List Char} :
    IsToken w ↔ w.head?.any (!Text.isBlank ·) = true ∧ w.all (!isGap ·) = true := by
  constructor
  · intro h
    obtain ⟨c, hc, hblank⟩ := h.starts
    have hgap : ∀ c ∈ w, isGap c = false := h.noGap
    rw [hc]
    simpa [hblank] using hgap
  · intro h
    obtain ⟨c, hc, hblank⟩ := (Option.any_eq_true _ _).1 h.1
    exact ⟨⟨c, hc, by simpa using hblank⟩, by simpa using h.2⟩

instance (w : List Char) : Decidable (IsToken w) := decidable_of_iff _ isToken_iff.symm

/-- Nothing is left, or what is left starts with a gap and ends in a character that is no blank. -/
def AtGap (rest : List Char) : Prop :=
  rest = [] ∨ (∃ c ∈ rest.head?, isGap c = true) ∧ ∃ c ∈ rest.getLast?, Text.isBlank c = false

/-! ## One token -/

/-- Cutting in one pass comes to the same as cutting at all gaps and dropping what is empty. -/
theorem tokensFrom_eq_pieces (text : List Char) : tokensFrom text = pieces text := by
  fun_induction tokensFrom text with
  | case1 text hblank =>
    rw [← pieces_dropWhile, hblank]
    rfl
  | case2 text c rest hbody ih =>
    have hblank : Text.isBlank c = false := Text.eq_false_of_dropWhile_eq_cons hbody
    have hgap : isGap c = false := isGap_eq_false_of_isBlank hblank
    have hstop := List.head?_dropWhile_not (fun c => !isGap c) (c :: rest)
    rw [ih, ← pieces_dropWhile text, hbody]
    conv_rhs => rw [← List.takeWhile_append_dropWhile (p := fun c => !isGap c) (l := c :: rest)]
    rw [pieces_append, if_neg (by simp [hgap])]
    · intro d hd
      simpa using List.mem_takeWhile_imp hd
    · intro d hd
      obtain rfl : c = d := by simpa [hgap] using hd
      exact hblank
    · intro d hd
      rw [Option.mem_def.1 hd] at hstop
      simpa using hstop

theorem tokens_eq_words (line : List Char) : tokens line = words line := by
  rw [tokens, tokensFrom_eq_pieces, words_eq_pieces]

/-- Reading a word cuts off the first token and leaves the others. -/
theorem tokens_eq (line : List Char) :
    tokens line =
      if (nextWord line).1 = [] then [] else (nextWord line).1 :: tokens (nextWord line).2 := by
  rw [tokens_eq_words, tokens_eq_words, words_eq]

/-- After a word there is a gap or nothing. -/
theorem atGap_snd_nextWord (line : List Char) : AtGap (nextWord line).2 := by
  by_cases hne : (nextWord line).2 = []
  · exact .inl hne
  · have hhead := List.head?_eq_some_head hne
    have hlast := List.getLast?_eq_some_getLast hne
    exact .inr ⟨⟨_, hhead, isGap_of_mem_head?_nextWord hhead⟩,
      _, hlast, eq_false_of_mem_getLast?_nextWord hlast⟩

/-! ## All tokens -/

theorem length_tokens_le (line : List Char) : (tokens line).length ≤ line.length := by
  have hfrom : ∀ text, (tokensFrom text).length ≤ text.length := by
    intro text
    fun_induction tokensFrom text with
    | case1 text h => simp
    | case2 text c rest h ih =>
      have hlt := length_dropWhile_not_isGap_lt h
      rw [List.length_cons]
      omega
  have htrim : (Text.trimEnd Text.isBlank line).length ≤ line.length :=
    (List.rdropWhile_prefix Text.isBlank line).length_le
  exact Nat.le_trans (hfrom _) htrim

theorem isToken_of_mem_tokensFrom {text w : List Char} (h : w ∈ tokensFrom text) : IsToken w := by
  fun_induction tokensFrom text with
  | case1 text hblank => cases h
  | case2 text c rest hbody ih =>
    rcases List.mem_cons.1 h with rfl | h
    · have hblank : Text.isBlank c = false := Text.eq_false_of_dropWhile_eq_cons hbody
      refine ⟨⟨c, ?_, hblank⟩, fun d hd => ?_⟩
      · simp [isGap_eq_false_of_isBlank hblank]
      · simpa using List.mem_takeWhile_imp hd
    · exact ih h

/-- The first word apart, the calls are those on what it leaves. -/
theorem scanned_succ (line : List Char) (k : Nat) :
    scanned line (k + 1) = scanned (nextWord line).2 k := by
  induction k with
  | zero => rfl
  | succ k ih => rw [scanned, ih, scanned]

/-- The calls give the tokens in order, and then nothing. -/
theorem fst_scanned (line : List Char) (k : Nat) :
    (scanned line k).1 = (tokens line).getD k [] := by
  induction k generalizing line with
  | zero =>
    rw [tokens_eq, scanned]
    split
    · rename_i h
      simpa using h
    · simp
  | succ k ih =>
    rw [scanned_succ, ih, tokens_eq line]
    split
    · rename_i h
      rw [snd_nextWord_of_fst_eq_nil h, tokens_eq]
      simp
    · simp

theorem scanned_of_length_le {line : List Char} {k : Nat} (h : (tokens line).length ≤ k) :
    scanned line k = ([], []) := by
  have hword : (scanned line k).1 = [] := by
    rw [fst_scanned]
    simp [h]
  refine Prod.ext hword ?_
  cases k with
  | zero => exact snd_nextWord_of_fst_eq_nil hword
  | succ k => exact snd_nextWord_of_fst_eq_nil hword

/-! ## Tokens joined by single spaces -/

theorem IsToken.ne_nil {w : List Char} (h : IsToken w) : w ≠ [] := by
  intro hw
  obtain ⟨c, hc, -⟩ := h.starts
  rw [hw] at hc
  cases hc

theorem nextWord_token {w rest : List Char} (h : IsToken w) (hr : ∀ c ∈ rest.head?, isGap c = true)
    (hl : ∀ c ∈ (w ++ rest).getLast?, Text.isBlank c = false) : nextWord (w ++ rest) = (w, rest) := by
  obtain ⟨c, w, rfl⟩ := List.exists_cons_of_ne_nil h.ne_nil
  obtain ⟨d, hd, hblank⟩ := h.starts
  cases hd
  exact nextWord_append hblank (fun d hd => h.noGap d (List.mem_cons_of_mem c hd)) hr hl

theorem tokens_cons_of_isBlank {c : Char} (h : Text.isBlank c = true) (line : List Char) :
    tokens (c :: line) = tokens line := by
  rw [tokens_eq, nextWord_cons_of_isBlank h, ← tokens_eq]

/-- Tokens joined by single spaces are cut at these spaces, if no blank is trimmed off the last. -/
theorem tokens_words {w : List Char} {ws : List (List Char)} (h : ∀ v ∈ w :: ws, IsToken v)
    (hl : ∀ c ∈ ((w :: ws).getLast (by simp)).getLast?, Text.isBlank c = false) :
    tokens (w ++ spaced ws) = w :: ws := by
  induction ws generalizing w with
  | nil =>
    have hword : nextWord (w ++ []) = (w, []) :=
      nextWord_token (h w (by simp)) (by simp) (by simpa using hl)
    rw [spaced_nil, tokens_eq, hword, if_neg (h w (by simp)).ne_nil, tokens_eq]
    simp
  | cons v ws ih =>
    have hrest : tokens (v ++ spaced ws) = v :: ws :=
      ih (fun u hu => h u (List.mem_cons_of_mem w hu)) (by simpa using hl)
    have hlast : ∀ c ∈ (w ++ spaced (v :: ws)).getLast?, Text.isBlank c = false := by
      rw [getLast?_words fun u hu => (h u (List.mem_cons_of_mem w hu)).ne_nil]
      exact hl
    have hword : nextWord (w ++ spaced (v :: ws)) = (w, spaced (v :: ws)) :=
      nextWord_token (h w (by simp)) (by intro c hc; cases hc; rfl) hlast
    rw [tokens_eq, hword, if_neg (h w (by simp)).ne_nil, spaced_cons, tokens_cons_of_isBlank rfl,
      hrest]

/-- The words of a line, called for one after the other, are its tokens: the right end is trimmed once,
and then the blanks before a token are dropped and the token is what stands before the next gap. There
are no more of them than characters, and afterwards every call gives the empty word and leaves nothing.
A token starts with a character that is no blank and has no gap in it, and what is left after it is
nothing or starts with a gap and ends as the line does. Words of this kind that are joined by single
spaces are called for in this order, if the last ends in a character that is no blank. -/
theorem scanning_is_tokenizing (line : List Char) :
    (∀ k, (scanned line k).1 = (tokens line).getD k []) ∧
    (tokens line).length ≤ line.length ∧
    (∀ k, (tokens line).length ≤ k → scanned line k = ([], [])) ∧
    (∀ w ∈ tokens line, IsToken w) ∧
    (∀ k, AtGap (scanned line k).2) ∧
    ∀ ws : List (List Char), (∀ w ∈ ws, IsToken w) →
      (∀ w ∈ ws.getLast?, ∀ c ∈ w.getLast?, Text.isBlank c = false) →
      ∀ k, (scanned ([' '].intercalate ws) k).1 = ws.getD k [] := by
  refine ⟨fst_scanned line, length_tokens_le line, fun k hk => scanned_of_length_le hk,
    fun w hw => isToken_of_mem_tokensFrom hw, fun k => ?_, fun ws hws hl k => ?_⟩
  · cases k with
    | zero => exact atGap_snd_nextWord line
    | succ k => exact atGap_snd_nextWord (scanned line k).2
  · cases ws with
    | nil => rw [fst_scanned, List.intercalate_nil, tokens_eq]; simp
    | cons w ws =>
      have hlast := hl _ (List.getLast?_eq_some_getLast (List.cons_ne_nil w ws))
      rw [fst_scanned, intercalate_cons, tokens_words hws hlast]

/-- Control characters at both ends of the line, before a word and inside one; and joined words, one of
which ends in a control character. -/
theorem scanning_is_tokenizing_controls :
    let line := "\x02 f1 \t\x01a\x01dd 1\t \x1f".toList
    let ws := ["f1".toList, "a\x01dd\x02".toList, "1".toList]
    tokens line = ["f1".toList, "a\x01dd".toList, "1".toList] ∧
      (scanned line 1).1 = "a\x01dd".toList ∧ scanned line 3 = ([], []) ∧
      IsToken (scanned line 1).1 ∧ AtGap (scanned line 1).2 ∧
      ((∀ w ∈ ws, IsToken w) ∧ ∀ w ∈ ws.getLast?, ∀ c ∈ w.getLast?, Text.isBlank c = false) ∧
      (scanned ([' '].intercalate ws) 1).1 = "a\x01dd\x02".toList := by
  intro line ws
  have htokens : tokens line = ["f1".toList, "a\x01dd".toList, "1".toList] := by decide +kernel
  have hws : ∀ w ∈ ws, IsToken w := by decide
  have hl : ∀ w ∈ ws.getLast?, ∀ c ∈ w.getLast?, Text.isBlank c = false := by
    intro w hw c hc
    cases hw
    cases hc
    rfl
  obtain ⟨hword, -, hend, htoken, hgap, hjoined⟩ := scanning_is_tokenizing line
  have hsecond : (scanned line 1).1 = "a\x01dd".toList := by
    rw [hword, htokens]
    rfl
  refine ⟨htokens, hsecond, hend 3 (by simp [htokens]), ?_, hgap 1, ⟨hws, hl⟩, ?_⟩
  · rw [hsecond]
    exact htoken _ (by simp [htokens])
  · rw [hjoined ws hws hl]
    rfl

end Source
end SimpleMachine
