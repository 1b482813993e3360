import OsTasks.Shell.Refine

/-!
# Sequences

Running `A;B` should be running `A` and then `B`. The scanner does so with two exceptions
(`processCommand_sequence`): a `;` at the very beginning of a line stops it, and
`conditional_run`, which `process_command` sets to 1 at its start, is not set again at a `;`:
when the last `&&` or `||` of `A` skips, the commands of `B` up to its first `&&` or `||` are
skipped as well.
-/

set_option autoImplicit false

namespace OsTasks.Shell

variable {W : Type}

/-! ## Splitting a text -/

/-- A character that is neither a space nor part of a word ends every word. -/
theorem lexWord_append {c : Char} (visible : isspace c = false) (ends : isWordChar c = false)
    (A B : Text) : lexWord (A ++ c :: B) = ((lexWord A).1, (lexWord A).2 ++ c :: B) := by
  have skip : (A ++ c :: B).dropWhile isspace = A.dropWhile isspace ++ c :: B := by
    rw [List.dropWhile_append]
    split
    · next all =>
        rw [List.isEmpty_iff.mp all, List.dropWhile_cons_of_neg (by simp [visible])]
        rfl
    · rfl
  simp only [lexWord]
  rw [skip]
  generalize A.dropWhile isspace = A'
  refine Prod.ext ?_ ?_
  · dsimp only
    rw [List.takeWhile_append]
    split
    · next all =>
        rw [List.takeWhile_cons_of_neg (by simp [ends]), List.append_nil]
        exact ((List.takeWhile_prefix _).eq_of_length all).symm
    · rfl
  · dsimp only
    rw [List.dropWhile_append]
    split
    · next all =>
        rw [List.isEmpty_iff.mp all, List.dropWhile_cons_of_neg (by simp [ends])]
        rfl
    · rfl

theorem lexWord_mem {A : Text} {c : Char} (member : c ∈ (lexWord A).2) : c ∈ A :=
  ((List.dropWhile_suffix _).trans (List.dropWhile_suffix _)).subset member

/-- The text has no character that ends the line. -/
def OneLine (A : Text) : Prop := ∀ c ∈ A, c ≠ nul ∧ c ≠ '\n' ∧ c ≠ '#'

instance (A : Text) : Decidable (OneLine A) := List.decidableBAll _ A

theorem head?_append_cons {A B : Text} {c e : Char} (other : c ≠ e) :
    (A ++ e :: B).head? = some c ↔ A.head? = some c := by
  cases A with
  | nil => simp [Ne.symm other]
  | cons d A => simp

section Splitting

variable {e : Char} {B : Text} {after : List Token}

/-- A character `e` splits the tokens from a delimiter on, when it splits those of the shorter texts
that the lexer goes on with. -/
theorem lexDelimiter_append (visible : isspace e = false) (ends : isWordChar e = false)
    (single : e ≠ '|' ∧ e ≠ '&') {c : Char} {text : Text}
    (goesOn : (c = '#' ∨ c = nul ∨ c = '\n') → after = [])
    (next : lex (text ++ e :: B) = lex text ++ after)
    (second : lex (text.tail ++ e :: B) = lex text.tail ++ after)
    (file : lex ((lexWord text).2 ++ e :: B) = lex (lexWord text).2 ++ after) :
    lexDelimiter lex (c :: (text ++ e :: B)) = lexDelimiter lex (c :: text) ++ after := by
  have redirected : ∀ write, lexRedirect lex write (text ++ e :: B) =
      lexRedirect lex write text ++ after := by
    intro write
    rw [lexRedirect]
    rw [lexWord_append visible ends, file]
    rfl
  have doubled : ∀ {d : Char}, text.head? = some d →
      lex (text ++ e :: B).tail = lex text.tail ++ after := by
    intro d first
    cases text with
    | nil => cases first
    | cons e text => exact second
  have bar : (text ++ e :: B).head? = some '|' ↔ text.head? = some '|' :=
    head?_append_cons single.1.symm
  have amp : (text ++ e :: B).head? = some '&' ↔ text.head? = some '&' :=
    head?_append_cons single.2.symm
  simp only [lexDelimiter, redirected, next, bar, amp]
  split_ifs with _ _ _ double _ double stops
  · rfl
  · rfl
  · rw [doubled double]
    rfl
  · rfl
  · rw [doubled double]
    rfl
  · rfl
  · rw [goesOn stops]
    rfl
  · rfl
  · rfl

/-- A character that ends words, and is neither `|` nor `&`, splits the tokens of a line. In a text
of several lines it does so when nothing comes after it. -/
theorem lex_append (visible : isspace e = false) (ends : isWordChar e = false)
    (single : e ≠ '|' ∧ e ≠ '&') (follows : lexDelimiter lex (e :: B) = after) (A : Text)
    (clean : OneLine A ∨ after = []) : lex (A ++ e :: B) = lex A ++ after := by
  -- The lexer goes on with shorter texts, so the induction is on the length.
  induction size : A.length using Nat.strong_induction_on generalizing A with
  | _ n ih =>
      have shorter : ∀ A', A'.length < n → (∀ c ∈ A', c ∈ A) →
          lex (A' ++ e :: B) = lex A' ++ after := by
        intro A' less subset
        refine ih A'.length less A' (clean.imp_left ?_) rfl
        intro clean c member
        exact clean c (subset c member)
      rw [lex_eq, lex_eq A, lexWord_append visible ends]
      dsimp only
      rw [List.append_assoc]
      congr 1
      have length := lexWord_length A
      have subset := fun c => lexWord_mem (A := A) (c := c)
      generalize (lexWord A).2 = rest at length subset
      cases rest with
      | nil => exact follows
      | cons c text =>
          have less : text.length < n := by
            simp only [List.length_cons] at length
            omega
          have inside : ∀ d ∈ text, d ∈ A := by
            intro d member
            exact subset d (List.mem_cons_of_mem c member)
          refine lexDelimiter_append visible ends single ?_ (shorter text less inside) ?_ ?_
          · intro stops
            refine clean.resolve_left fun clean => ?_
            have ordinary := clean c (subset c List.mem_cons_self)
            tauto
          · refine shorter text.tail ?_ fun d member => inside d (List.mem_of_mem_tail member)
            rw [List.length_tail]
            omega
          · exact shorter (lexWord text).2 (lt_of_le_of_lt (lexWord_length text) less)
              fun d member => inside d (lexWord_mem member)

end Splitting

/-- A `;` splits the tokens. -/
theorem lex_semi (A B : Text) (clean : OneLine A) :
    lex (A ++ ';' :: B) = lex A ++ .semi :: lex B :=
  lex_append (by decide) (by decide) (by decide) rfl A (.inl clean)

theorem stopsAtOnce_append {A : Text} (nonempty : A ≠ []) {e : Char} (single : e ≠ '|' ∧ e ≠ '&')
    (B : Text) : stopsAtOnce (A ++ e :: B) = stopsAtOnce A := by
  cases A with
  | nil => exact absurd rfl nonempty
  | cons c A =>
      have bar : (A ++ e :: B).head? = some '|' ↔ A.head? = some '|' :=
        head?_append_cons single.1.symm
      have amp : (A ++ e :: B).head? = some '&' ↔ A.head? = some '&' :=
        head?_append_cons single.2.symm
      simp only [List.cons_append, stopsAtOnce, ne_eq, bar, amp]

/-! ## Executing a sequence -/

variable (env : Env W)

/-- No command of the text has a word before the first `&&` or `||`. -/
def wordless : List Token → Bool
  | [] => true
  | .word _ :: _ => false
  | .andAnd :: _ | .orOr :: _ => true
  | _ :: toks => wordless toks

/-- Without words before the first conditional operator, the flag does not matter. -/
theorem runTokens_flag {toks : List Token} (quiet : wordless toks = true) (s : State W)
    (flag : Bool) : observed (runTokens env { s with conditionalRun := flag } [] toks) =
      observed (runTokens env s [] toks) := by
  have none : ∀ s : State W, finish env s [] = .ok s.restoreStd := by
    intro s
    rfl
  induction toks generalizing s with
  | nil =>
      rw [runTokens, runTokens, none, none, restoreStd_flag]
      rfl
  | cons token toks ih =>
      cases token with
      | word text => cases quiet
      | redirect write file =>
          have step : ∀ s : State W, runTokens env s [] (.redirect write file :: toks) =
              runTokens env (redirectToken env s [] write file).1
                (redirectToken env s [] write file).2 toks := by
            intro s
            rfl
          rw [step, step, redirectToken_flag, redirectToken_nil]
          exact ih quiet _
      | noFile => rfl
      | semi =>
          have step : ∀ s : State W, runTokens env s [] (.semi :: toks) =
              runTokens env s.restoreStd [] toks := by
            intro s
            rfl
          rw [step, step, restoreStd_flag]
          exact ih quiet _
      | andAnd =>
          have step : ∀ s : State W, runTokens env s [] (.andAnd :: toks) =
              runTokens env { s.restoreStd with conditionalRun := s.restoreStd.error = 0 } []
                toks := fun s => rfl
          rw [step, step, restoreStd_flag]
      | orOr =>
          have step : ∀ s : State W, runTokens env s [] (.orOr :: toks) =
              runTokens env { s.restoreStd with conditionalRun := s.restoreStd.error ≠ 0 } []
                toks := fun s => rfl
          rw [step, step, restoreStd_flag]
      | pipe => exact ih quiet s
      | amp => exact ih quiet s

end OsTasks.Shell
