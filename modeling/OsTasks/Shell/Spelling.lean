import OsTasks.Shell.Refine

/-!
# Spelling tokens

A list of tokens can be written down in many ways: with any blanks before and between the
tokens, and without a blank where two tokens cannot be taken for one. `Spells toks line`
says that a line is such a spelling. The shell reads every spelling back
(`tokens_of_spells`).
-/

set_option autoImplicit false

namespace OsTasks.Shell

/-- The characters of a token. -/
def Token.spelling : Token → Text
  | .word text => text
  | .redirect true file => '>' :: file
  | .redirect false file => '<' :: file
  | .noFile => ['>']
  | .semi => [';']
  | .andAnd => ['&', '&']
  | .orOr => ['|', '|']
  | .pipe => ['|']
  | .amp => ['&']

/-- A word of the shell language. -/
structure IsWord (word : Text) : Prop where
  nonempty : word ≠ []
  chars : ∀ c ∈ word, isWordChar c = true
  first : isspace (word.headD nul) = false

instance (word : Text) : Decidable (IsWord word) :=
  have : Decidable (∀ c ∈ word, isWordChar c = true) := List.decidableBAll _ word
  decidable_of_iff (word ≠ [] ∧ (∀ c ∈ word, isWordChar c = true) ∧
      isspace (word.headD nul) = false)
    ⟨fun ⟨nonempty, chars, first⟩ => ⟨nonempty, chars, first⟩,
      fun ⟨nonempty, chars, first⟩ => ⟨nonempty, chars, first⟩⟩

/-- A text at which a word may end. -/
def EndsWord : Text → Prop
  | [] => True
  | c :: _ => isDelimiter c = true ∧ c ≠ '\n'

instance : (text : Text) → Decidable (EndsWord text)
  | [] => inferInstanceAs (Decidable True)
  | _ :: _ => inferInstanceAs (Decidable (_ ∧ _))

/-- A token may stand directly before a text. -/
def Fits (text : Text) : Token → Prop
  | .word word => IsWord word ∧ EndsWord text
  | .redirect _ file => IsWord file ∧ EndsWord text
  | .noFile => False
  | .pipe => text.head? ≠ some '|'
  | .amp => text.head? ≠ some '&'
  | .semi | .andAnd | .orOr => True

instance (text : Text) : (token : Token) → Decidable (Fits text token)
  | .word _ | .redirect _ _ => inferInstanceAs (Decidable (_ ∧ _))
  | .noFile => inferInstanceAs (Decidable False)
  | .pipe | .amp => inferInstanceAs (Decidable (_ ≠ _))
  | .semi | .andAnd | .orOr => inferInstanceAs (Decidable True)

/-- Blanks and tabs only. -/
def Blanks (text : Text) : Prop := ∀ c ∈ text, c = ' ' ∨ c = '\t'

instance (text : Text) : Decidable (Blanks text) := List.decidableBAll _ text

/-- The text spells the tokens. -/
inductive Spells : List Token → Text → Prop
  | nil {blanks : Text} : Blanks blanks → Spells [] blanks
  | cons {blanks text : Text} {token : Token} {toks : List Token} :
      Blanks blanks → Fits text token → Spells toks text →
        Spells (token :: toks) (blanks ++ (token.spelling ++ text))

/-- Write down tokens, each with the blanks before it. -/
def spell (tail : Text) : List (Text × Token) → Text
  | [] => tail
  | (blanks, token) :: items => blanks ++ (token.spelling ++ spell tail items)

/-- No two tokens run into each other. -/
def WellSpaced (tail : Text) : List (Text × Token) → Prop
  | [] => Blanks tail
  | (blanks, token) :: items =>
      Blanks blanks ∧ Fits (spell tail items) token ∧ WellSpaced tail items

instance decidableWellSpaced (tail : Text) :
    (items : List (Text × Token)) → Decidable (WellSpaced tail items)
  | [] => inferInstanceAs (Decidable (Blanks tail))
  | (blanks, token) :: items =>
      have : Decidable (WellSpaced tail items) := decidableWellSpaced tail items
      inferInstanceAs (Decidable (Blanks blanks ∧ Fits (spell tail items) token ∧ _))

theorem spells_spell {tail : Text} {items : List (Text × Token)}
    (spaced : WellSpaced tail items) : Spells (items.map Prod.snd) (spell tail items) := by
  induction items with
  | nil => exact .nil spaced
  | cons item items ih => exact .cons spaced.1 spaced.2.1 (ih spaced.2.2)

/-! ## Reading back -/

theorem Blanks.isspace {blanks : Text} (blank : Blanks blanks) :
    ∀ c ∈ blanks, isspace c = true := by
  intro c member
  rcases blank c member with rfl | rfl <;> decide

/-- Blanks before a token are skipped. -/
theorem lex_blanks {blanks : Text} (blank : Blanks blanks) (text : Text) :
    lex (blanks ++ text) = lex text := by
  have same : lexWord (blanks ++ text) = lexWord text := by
    unfold lexWord
    rw [List.dropWhile_append_of_pos blank.isspace]
  rw [lex_eq, lex_eq text, same]

/-- A visible delimiter starts no word. -/
theorem lexWord_visible {c : Char} (visible : isspace c = false) (ends : isWordChar c = false)
    (text : Text) : lexWord (c :: text) = ([], c :: text) := by
  simp [lexWord, visible, ends]

theorem lex_visible {c : Char} (visible : isspace c = false) (ends : isWordChar c = false)
    (text : Text) : lex (c :: text) = lexDelimiter lex (c :: text) := by
  rw [lex_eq, lexWord_visible visible ends]
  rfl

/-- Where a word may end, the delimiter is read as if a new token started there. -/
theorem EndsWord.lexDelimiter_eq {text : Text} (ends : EndsWord text) :
    lexDelimiter lex text = lex text := by
  cases text with
  | nil => rfl
  | cons c text =>
      obtain ⟨delimiter, notNewline⟩ := ends
      by_cases space : c = ' ' ∨ c = '\t'
      · have blank : Blanks [c] := by
          intro d member
          exact List.mem_singleton.mp member ▸ space
        have skipped : lex (c :: text) = lex text := lex_blanks blank text
        rw [skipped]
        rcases space with rfl | rfl <;> rfl
      · refine (lex_visible ?_ (by simp [isWordChar, delimiter]) text).symm
        simp only [isDelimiter, List.mem_cons, List.not_mem_nil, or_false,
          decide_eq_true_eq] at delimiter
        rcases delimiter with rfl | rfl | rfl | rfl | rfl | rfl | rfl | rfl | rfl | rfl <;>
          simp_all [isspace, nul]

theorem EndsWord.stops {text : Text} (ends : EndsWord text) :
    isWordChar (text.headD nul) = false := by
  cases text with
  | nil => decide
  | cons c text => simp [isWordChar, ends.1]

/-- A word is read up to its end. -/
theorem lexWord_word {word text : Text} (isWord : IsWord word)
    (stops : isWordChar (text.headD nul) = false) : lexWord (word ++ text) = (word, text) := by
  have start : (word ++ text).dropWhile isspace = word ++ text := by
    obtain ⟨nonempty, -, first⟩ := isWord
    cases word with
    | nil => exact absurd rfl nonempty
    | cons c word => exact List.dropWhile_cons_of_neg (by simpa using first)
  have stop : text.takeWhile isWordChar = [] ∧ text.dropWhile isWordChar = text := by
    cases text with
    | nil => exact ⟨rfl, rfl⟩
    | cons c text =>
        exact ⟨List.takeWhile_cons_of_neg (by simpa using stops),
          List.dropWhile_cons_of_neg (by simpa using stops)⟩
  unfold lexWord
  dsimp only
  rw [start, List.takeWhile_append_of_pos isWord.chars, List.dropWhile_append_of_pos isWord.chars,
    stop.1, stop.2, List.append_nil]

theorem lex_word {word text : Text} (isWord : IsWord word) (ends : EndsWord text) :
    lex (word ++ text) = .word word :: lex text := by
  rw [lex_eq, lexWord_word isWord ends.stops, wordToken, if_neg isWord.nonempty,
    ends.lexDelimiter_eq]
  rfl

/-- A token is read back. -/
theorem lex_token {token : Token} {text : Text} (fits : Fits text token) :
    lex (token.spelling ++ text) = token :: lex text := by
  have file : ∀ (write : Bool) {name : Text}, IsWord name → EndsWord text →
      lexRedirect lex write (name ++ text) = .redirect write name :: lex text := by
    intro write name isWord ends
    rw [lexRedirect, lexWord_word isWord ends.stops]
    exact congrArg (· :: lex text) (if_neg isWord.nonempty)
  cases token with
  | word word => exact lex_word fits.1 fits.2
  | redirect write name =>
      cases write with
      | false => exact (lex_visible (by decide) (by decide) _).trans (file false fits.1 fits.2)
      | true => exact (lex_visible (by decide) (by decide) _).trans (file true fits.1 fits.2)
  | noFile => exact fits.elim
  | semi => exact lex_visible (by decide) (by decide) _
  | andAnd => exact lex_visible (by decide) (by decide) _
  | orOr => exact lex_visible (by decide) (by decide) _
  | pipe =>
      refine (lex_visible (by decide) (by decide) _).trans ?_
      simp only [lexDelimiter]
      exact if_neg fits
  | amp =>
      refine (lex_visible (by decide) (by decide) _).trans ?_
      simp only [lexDelimiter]
      exact if_neg fits

theorem lex_of_spells {toks : List Token} {line : Text} (spells : Spells toks line) :
    lex line = toks := by
  induction spells with
  | nil blank =>
      have empty := lex_blanks blank []
      rw [List.append_nil] at empty
      exact empty
  | cons blank fits _ ih => rw [lex_blanks blank, lex_token fits, ih]

theorem stopsAtOnce_of_first {c : Char} (text : Text) (semi : c ≠ ';') (bar : c ≠ '|')
    (amp : c ≠ '&') : stopsAtOnce (c :: text) = false := by
  simp [stopsAtOnce, semi, bar, amp]

/-- **Every spelling that starts with a word is read back.** -/
theorem tokens_of_spells {word : Text} {toks : List Token} {line : Text}
    (spells : Spells (.word word :: toks) line) : tokens line = .word word :: toks := by
  have starts : stopsAtOnce line = false := by
    cases spells with
    | @cons blanks text _ _ blank fits _ =>
        cases blanks with
        | cons b blanks =>
            rcases blank b List.mem_cons_self with rfl | rfl
            · exact stopsAtOnce_of_first _ (by decide) (by decide) (by decide)
            · exact stopsAtOnce_of_first _ (by decide) (by decide) (by decide)
        | nil =>
            obtain ⟨nonempty, chars, -⟩ := fits.1
            cases word with
            | nil => exact absurd rfl nonempty
            | cons c word =>
                have char := chars c List.mem_cons_self
                refine stopsAtOnce_of_first _ ?_ ?_ ?_
                all_goals
                  rintro rfl
                  cases char
  rw [tokens, if_neg (by simp [starts]), lex_of_spells spells]

end OsTasks.Shell
