import OsTasks.Shell.Scan

/-!
# Tokens

What a line means to the shell, without the buffer: the line is a list of tokens (`tokens`),
and the tokens are executed one after the other (`runTokens`). The scanner has no grammar of
its own; in particular `|` and a single `&` separate words and nothing else.

One kind of line is ignored as a whole: a line whose very first character is `;`, or a `|` or
`&` that is not doubled (`stopsAtOnce`). The scanner does not move on from the first place of
the line, finds the NUL it has just written there, and stops.
-/

set_option autoImplicit false

namespace OsTasks.Shell

variable {W : Type}

/-! ## From characters to tokens -/

/-- A token of the line. -/
inductive Token where
  | word (text : Text)
  | redirect (write : Bool) (file : Text)
  /-- A `<` or `>` that no word follows. -/
  | noFile
  | semi
  | andAnd
  | orOr
  | pipe
  | amp
  deriving DecidableEq, Repr

/-- A character of a word. -/
def isWordChar (c : Char) : Bool := !isDelimiter c

/-- The next word, which may be empty, and what follows it. -/
def lexWord (text : Text) : Text × Text :=
  let text := text.dropWhile isspace
  (text.takeWhile isWordChar, text.dropWhile isWordChar)

/-- The tokens after a `<` or a `>`. -/
def lexRedirect (lexer : Text → List Token) (write : Bool) (text : Text) : List Token :=
  (if (lexWord text).1 = [] then .noFile else .redirect write (lexWord text).1) ::
    lexer (lexWord text).2

/-- The tokens from a delimiter on. -/
def lexDelimiter (lexer : Text → List Token) : Text → List Token
  | [] => []
  | c :: text =>
      if c = '>' then lexRedirect lexer true text
      else if c = '<' then lexRedirect lexer false text
      else if c = '|' then
        if text.head? = some '|' then .orOr :: lexer text.tail else .pipe :: lexer text
      else if c = '&' then
        if text.head? = some '&' then .andAnd :: lexer text.tail else .amp :: lexer text
      else if c = '#' ∨ c = nul ∨ c = '\n' then []
      else if c = ';' then .semi :: lexer text
      else lexer text

/-- Where the scanner goes on after a delimiter, unless it returns there or has no file name. -/
def nextText : Text → Option Text
  | [] => none
  | c :: text =>
      if c = '>' ∨ c = '<' then if (lexWord text).1 = [] then none else some (lexWord text).2
      else if c = '|' then some (if text.head? = some '|' then text.tail else text)
      else if c = '&' then some (if text.head? = some '&' then text.tail else text)
      else if c = '#' ∨ c = nul ∨ c = '\n' then none
      else some text

/-- The token of a word, if there is one. -/
def wordToken (word : Text) : List Token := if word = [] then [] else [.word word]

/-- The tokens of a text: a word and the delimiter behind it, one after the other. -/
def lexFrom : Nat → Text → List Token
  | 0, _ => []
  | fuel + 1, text => wordToken (lexWord text).1 ++ lexDelimiter (lexFrom fuel) (lexWord text).2

/-- The tokens of a text. -/
def lex (text : Text) : List Token := lexFrom (text.length + 1) text

/-- The scanner does not get past the first character. -/
def stopsAtOnce : Text → Bool
  | [] => false
  | c :: text =>
      c = ';' ∨ (c = '|' ∧ text.head? ≠ some '|') ∨ (c = '&' ∧ text.head? ≠ some '&')

/-- The tokens of a line as the shell sees them. -/
def tokens (line : Text) : List Token := if stopsAtOnce line then [] else lex line

section Lengths

theorem lexWord_length (text : Text) : (lexWord text).2.length ≤ text.length :=
  ((List.dropWhile_suffix _).trans (List.dropWhile_suffix _)).length_le

/-- The lexer is called on shorter texts only. -/
theorem lexDelimiter_congr {lexer lexer' : Text → List Token} {text : Text}
    (same : ∀ shorter : Text, shorter.length < text.length → lexer shorter = lexer' shorter) :
    lexDelimiter lexer text = lexDelimiter lexer' text := by
  cases text with
  | nil => rfl
  | cons c text =>
      have here : lexer text = lexer' text := same text (by simp)
      have next : lexer text.tail = lexer' text.tail :=
        same text.tail (by simp only [List.length_tail, List.length_cons]; omega)
      have file : lexer (lexWord text).2 = lexer' (lexWord text).2 :=
        same _ (Nat.lt_succ_of_le (lexWord_length text))
      simp only [lexDelimiter, lexRedirect, here, next, file]

theorem lexFrom_eq {fuel fuel' : Nat} {text : Text} (enough : text.length < fuel)
    (enough' : text.length < fuel') : lexFrom fuel text = lexFrom fuel' text := by
  induction fuel generalizing fuel' text with
  | zero => omega
  | succ fuel ih =>
      obtain ⟨fuel', rfl⟩ : ∃ n, fuel' = n + 1 := ⟨fuel' - 1, by omega⟩
      have shorter := lexWord_length text
      simp only [lexFrom]
      exact congrArg _ (lexDelimiter_congr fun s less => ih (by omega) (by omega))

end Lengths

/-- The equation of the lexer. -/
theorem lex_eq (text : Text) :
    lex text = wordToken (lexWord text).1 ++ lexDelimiter lex (lexWord text).2 := by
  have shorter := lexWord_length text
  have same : lexDelimiter (lexFrom text.length) (lexWord text).2 =
      lexDelimiter lex (lexWord text).2 := by
    refine lexDelimiter_congr fun s less => lexFrom_eq (by omega) (by omega)
  rw [← same]
  rfl

/-! ## Executing tokens -/

variable (env : Env W)

/-- Run the command that the words make up. -/
def finish (s : State W) (args : List Text) : Except (Stop W) (State W) :=
  (runCommand env s args).map Prod.snd

/-- A redirection. When the file cannot be opened, the words so far are dropped. -/
def redirectToken (s : State W) (args : List Text) (write : Bool) (file : Text) :
    State W × List Text :=
  match s.os.openFile env file write with
  | (none, os) => ({ s with os := os }, [])
  | (some fd, os) => (redirectTo { s with os := os } write fd, args)

/-- Execute one token, with the words of the present command. -/
def tokenStep (state : State W × List Text) : Token → Except (Stop W) (State W × List Text)
  | .word text =>
      if state.2.length + 1 < maxArgs then .ok (state.1, state.2 ++ [text])
      else .error (.fault state.1)
  | .redirect write file => .ok (redirectToken env state.1 state.2 write file)
  | .noFile => .error (.fault state.1)
  | .semi => do
      let s ← finish env state.1 state.2
      .ok (s, [])
  | .andAnd => do
      let s ← finish env state.1 state.2
      .ok ({ s with conditionalRun := s.error = 0 }, [])
  | .orOr => do
      let s ← finish env state.1 state.2
      .ok ({ s with conditionalRun := s.error ≠ 0 }, [])
  | .pipe | .amp => .ok state

/-- Execute tokens in the middle of a line. -/
def stepTokens (state : State W × List Text) : List Token → Except (Stop W) (State W × List Text)
  | [] => .ok state
  | token :: rest => do
      let state ← tokenStep env state token
      stepTokens state rest

/-- Execute tokens up to the end of the line. -/
def runTokens (s : State W) (args : List Text) : List Token → Except (Stop W) (State W)
  | [] => finish env s args
  | token :: rest => do
      let (s, args) ← tokenStep env (s, args) token
      runTokens s args rest

end OsTasks.Shell
