import OsTasks.Shell.Background
import OsTasks.Shell.Spelling

/-!
# One layout for every line

Many lines mean the same to the shell. `layoutLine` rewrites a line: every token stands behind one
blank, comments and what follows a newline are gone, and a part that is ignored as a whole becomes
empty. The `&` at which `process` cuts the line stay.

A line and its layout have the same `commands`, two lines have the same layout exactly when they
have the same commands (`layoutLine_eq_iff`), and a session is the same when every line is replaced
by its layout (`processLines_layout`): the shell ends in the same state, and as many children do
the same in the background.

Every token reads back behind a blank but one: a `>` without a file name would take a word that
follows as its file name. No line has such tokens (`written_lex`).
-/

set_option autoImplicit false

namespace OsTasks.Shell

variable {W : Type}

/-- Write down tokens, each behind a blank. -/
def render (toks : List Token) : Text := toks.flatMap fun token => ' ' :: token.spelling

/-- The layout of a part of a line. -/
def layout (piece : Text) : Text := render (tokens piece)

/-- What a line runs: the tokens of each of its parts. -/
def commands (line : Text) : List (List Token) := (pieces line).map tokens

/-- The canonical layout of a line, piece by piece. -/
def layoutLine (line : Text) : Text := ['&', ' '].intercalate ((pieces line).map layout)

/-- A list of tokens that a line can have: words and file names are words of the language, and no
word follows a redirection without a file name. -/
def Written : List Token → Prop
  | [] => True
  | .word word :: toks => IsWord word ∧ Written toks
  | .redirect _ file :: toks => IsWord file ∧ Written toks
  | .noFile :: toks => (∀ word, toks.head? ≠ some (.word word)) ∧ Written toks
  | _ :: toks => Written toks

/-! ## Reading a layout -/

theorem blanks_blank : Blanks [' '] := by
  intro c member
  exact .inl (List.mem_singleton.mp member)

theorem render_cons (token : Token) (toks : List Token) :
    render (token :: toks) = [' '] ++ (token.spelling ++ render toks) := by
  rw [render, List.flatMap_cons, List.cons_append]
  rfl

theorem endsWord_render (toks : List Token) : EndsWord (render toks) := by
  cases toks with
  | nil => trivial
  | cons token toks =>
      rw [render_cons]
      exact ⟨by decide, by decide⟩

theorem head_render_ne {c : Char} (other : c ≠ ' ') (toks : List Token) :
    (render toks).head? ≠ some c := by
  cases toks with
  | nil => nofun
  | cons token toks =>
      rw [render_cons]
      exact fun same => other (Option.some.inj same).symm

/-- What stands behind a redirection without a file name does not start with a word. -/
theorem lexWord_render {toks : List Token} (noWord : ∀ word, toks.head? ≠ some (.word word)) :
    ∃ text, lexWord (render toks) = ([], text) ∧ lex text = lex (render toks) := by
  cases toks with
  | nil => exact ⟨[], rfl, rfl⟩
  | cons token toks =>
      have skipped : lexWord (render (token :: toks)) = lexWord (token.spelling ++ render toks) := by
        rw [render_cons, lexWord, List.dropWhile_append_of_pos blanks_blank.isspace]
        rfl
      refine ⟨token.spelling ++ render toks, ?_, ?_⟩
      · rw [skipped]
        cases token with
        | word word => exact absurd rfl (noWord word)
        | redirect write file =>
            cases write with
            | true => exact lexWord_visible (by decide) (by decide) _
            | false => exact lexWord_visible (by decide) (by decide) _
        | noFile | semi | andAnd | orOr | pipe | amp =>
            exact lexWord_visible (by decide) (by decide) _
      · rw [render_cons, lex_blanks blanks_blank]

/-- **A layout is read back.** -/
theorem lex_render {toks : List Token} (written : Written toks) : lex (render toks) = toks := by
  induction toks with
  | nil => rfl
  | cons token toks ih =>
      rw [render_cons, lex_blanks blanks_blank]
      have ends := endsWord_render toks
      cases token with
      | word word =>
          have fits : Fits (render toks) (.word word) := ⟨written.1, ends⟩
          rw [lex_token fits, ih written.2]
      | redirect write file =>
          have fits : Fits (render toks) (.redirect write file) := ⟨written.1, ends⟩
          rw [lex_token fits, ih written.2]
      | noFile =>
          obtain ⟨text, none, same⟩ := lexWord_render written.1
          have visible : lex ('>' :: render toks) = lexRedirect lex true (render toks) :=
            lex_visible (by decide) (by decide) _
          refine visible.trans ?_
          rw [lexRedirect, none]
          dsimp only
          rw [if_pos rfl, same, ih written.2]
      | semi =>
          have fits : Fits (render toks) .semi := trivial
          rw [lex_token fits, ih written]
      | andAnd =>
          have fits : Fits (render toks) .andAnd := trivial
          rw [lex_token fits, ih written]
      | orOr =>
          have fits : Fits (render toks) .orOr := trivial
          rw [lex_token fits, ih written]
      | pipe =>
          have fits : Fits (render toks) .pipe := head_render_ne (by decide) toks
          rw [lex_token fits, ih written]
      | amp =>
          have fits : Fits (render toks) .amp := head_render_ne (by decide) toks
          rw [lex_token fits, ih written]

/-! ## The tokens of a line -/

/-- After the blanks stands a character that is none. -/
theorem dropWhile_isspace (text : Text) :
    text.dropWhile isspace = [] ∨ isspace ((text.dropWhile isspace).headD nul) = false := by
  have first := List.head?_dropWhile_not isspace text
  cases start : text.dropWhile isspace with
  | nil => exact .inl rfl
  | cons c rest =>
      rw [start] at first
      exact .inr first

theorem lexWord_isWord {text : Text} (some : (lexWord text).1 ≠ []) : IsWord (lexWord text).1 := by
  refine ⟨some, fun c member => List.mem_takeWhile_imp member, ?_⟩
  simp only [lexWord] at some ⊢
  have visible := dropWhile_isspace text
  cases start : text.dropWhile isspace with
  | nil =>
      rw [start] at some
      exact absurd rfl some
  | cons c rest =>
      rw [start] at some visible
      have word : isWordChar c = true := by
        by_contra ends
        exact some (List.takeWhile_cons_of_neg ends)
      rw [List.takeWhile_cons_of_pos word]
      exact visible.resolve_left (List.cons_ne_nil c rest)

/-- Where no word is found, what is left starts with a visible delimiter. -/
theorem lexWord_rest {text : Text} (none : (lexWord text).1 = []) : (lexWord text).2 = [] ∨
    ∃ c rest, (lexWord text).2 = c :: rest ∧ isspace c = false ∧ isWordChar c = false := by
  simp only [lexWord] at none ⊢
  have visible := dropWhile_isspace text
  cases start : text.dropWhile isspace with
  | nil => exact .inl rfl
  | cons c rest =>
      rw [start] at none visible
      have ends : ¬ isWordChar c = true := by
        intro word
        rw [List.takeWhile_cons_of_pos word] at none
        cases none
      rw [List.dropWhile_cons_of_neg ends]
      exact .inr ⟨c, rest, rfl, visible.resolve_left (List.cons_ne_nil c rest), by simpa using ends⟩

/-- A visible delimiter yields no word. -/
theorem lexDelimiter_noWord {c : Char} (visible : isspace c = false) (ends : isWordChar c = false)
    (rest word : Text) : (lexDelimiter lex (c :: rest)).head? ≠ some (.word word) := by
  have redirect : ∀ write, (lexRedirect lex write rest).head? ≠ some (.word word) := by
    intro write
    rw [lexRedirect, List.head?_cons]
    split <;> simp
  have delimiter : isDelimiter c = true := by simpa [isWordChar] using ends
  simp only [isDelimiter, List.mem_cons, List.not_mem_nil, or_false, decide_eq_true_eq]
    at delimiter
  rcases delimiter with rfl | rfl | rfl | rfl | rfl | rfl | rfl | rfl | rfl | rfl
  · cases visible
  · cases visible
  · intro same
    cases same
  · by_cases two : rest.head? = some '&'
    · simp [lexDelimiter, two]
    · simp [lexDelimiter, two]
  · by_cases two : rest.head? = some '|'
    · simp [lexDelimiter, two]
    · simp [lexDelimiter, two]
  · exact redirect true
  · exact redirect false
  · cases visible
  · intro same
    cases same
  · intro same
    cases same

theorem written_redirect {text : Text} (write : Bool) (later : Written (lex (lexWord text).2)) :
    Written (lexRedirect lex write text) := by
  rw [lexRedirect]
  split
  · next none =>
      refine ⟨fun word => ?_, later⟩
      rcases lexWord_rest none with empty | ⟨c, rest, same, visible, ends⟩
      · rw [empty]
        intro same
        cases same
      · rw [same, lex_visible visible ends]
        exact lexDelimiter_noWord visible ends rest word
  · next some => exact ⟨lexWord_isWord some, later⟩

theorem written_delimiter {text : Text}
    (later : ∀ shorter : Text, shorter.length < text.length → Written (lex shorter)) :
    Written (lexDelimiter lex text) := by
  cases text with
  | nil => trivial
  | cons c text =>
      have here : Written (lex text) := later text (Nat.lt_succ_self _)
      have shorter : text.tail.length < (c :: text).length := by
        rw [List.length_cons, List.length_tail]
        omega
      have next : Written (lex text.tail) := later text.tail shorter
      have file : Written (lex (lexWord text).2) :=
        later _ (Nat.lt_succ_of_le (lexWord_length text))
      simp only [lexDelimiter]
      split
      · exact written_redirect true file
      split
      · exact written_redirect false file
      split
      · split
        · exact next
        · exact here
      split
      · split
        · exact next
        · exact here
      split
      · trivial
      split
      · exact here
      · exact here

/-- **The tokens of every line can be written down.** -/
theorem written_lex (text : Text) : Written (lex text) := by
  induction size : text.length using Nat.strong_induction_on generalizing text with
  | _ n ih =>
      subst size
      have later : Written (lexDelimiter lex (lexWord text).2) :=
        written_delimiter fun shorter less =>
          ih shorter.length (Nat.lt_of_lt_of_le less (lexWord_length text)) shorter rfl
      rw [lex_eq, wordToken]
      split
      · exact later
      · next some => exact ⟨lexWord_isWord some, later⟩

/-! ## Parts of a line -/

theorem written_tokens (piece : Text) : Written (tokens piece) := by
  rw [tokens]
  split
  · trivial
  · exact written_lex piece

/-- A layout starts with a blank, so that the scanner gets past its first character. -/
theorem render_starts (toks : List Token) : stopsAtOnce (render toks) = false := by
  cases toks with
  | nil => rfl
  | cons token toks =>
      rw [render_cons]
      exact stopsAtOnce_of_first _ (by decide) (by decide) (by decide)

theorem tokens_layout (piece : Text) : tokens (layout piece) = tokens piece := by
  rw [layout, tokens, if_neg (by simp [render_starts]), lex_render (written_tokens piece)]

theorem tokens_blank_layout (piece : Text) : tokens (' ' :: layout piece) = tokens piece := by
  have starts : stopsAtOnce (' ' :: layout piece) = false :=
    stopsAtOnce_of_first _ (by decide) (by decide) (by decide)
  rw [tokens, if_neg (by simp [starts])]
  exact (lex_blanks blanks_blank (layout piece)).trans (lex_render (written_tokens piece))

theorem IsWord.chars_ne {word : Text} (isWord : IsWord word) {c : Char}
    (ends : isWordChar c = false) : ∀ d ∈ word, d ≠ c := by
  rintro d member rfl
  rw [isWord.chars d member] at ends
  cases ends

/-- Where no `&` stands alone, the lexer finds none. -/
theorem Whole.amp_notMem_delimiter {text : Text} (whole : Whole text)
    (later : ∀ shorter : Text, shorter.length < text.length → Whole shorter →
      Token.amp ∉ lex shorter) : Token.amp ∉ lexDelimiter lex text := by
  cases text with
  | nil => exact List.not_mem_nil
  | cons c text =>
      have less : text.length < (c :: text).length := Nat.lt_succ_self _
      have less₂ : ∀ (d e : Char) (rest : Text), rest.length < (d :: e :: rest).length :=
        fun _ _ rest => Nat.lt_succ_of_lt (Nat.lt_succ_self rest.length)
      have redirect : ∀ write, Whole text → Token.amp ∉ lexRedirect lex write text := by
        intro write whole'
        have file := later _ (Nat.lt_succ_of_le (lexWord_length text)) whole'.lexWord
        rw [lexRedirect]
        split
        · simpa using file
        · simpa using file
      simp only [lexDelimiter]
      split
      · next write =>
          subst write
          exact redirect true (whole.tail (by decide))
      split
      · next read =>
          subst read
          exact redirect false (whole.tail (by decide))
      split
      · next bar =>
          subst bar
          have whole' : Whole text := whole.tail (by decide)
          split
          · next double =>
              cases text with
              | nil => cases double
              | cons d text =>
                  cases double
                  have rest := later text (less₂ _ _ text) (whole'.tail (by decide))
                  simpa using rest
          · simpa using later text less whole'
      split
      · next amp =>
          subst amp
          obtain ⟨rest, rfl, paired⟩ := whole.pair
          have rest := later rest (less₂ _ _ rest) paired
          simpa using rest
      next other =>
      split
      · exact List.not_mem_nil
      have rest := later text less (whole.tail other)
      split
      · simpa using rest
      · exact rest

theorem Whole.amp_notMem {text : Text} (whole : Whole text) : Token.amp ∉ lex text := by
  induction size : text.length using Nat.strong_induction_on generalizing text with
  | _ n ih =>
      subst size
      have later : Token.amp ∉ lexDelimiter lex (Shell.lexWord text).2 :=
        whole.lexWord.amp_notMem_delimiter fun shorter less whole =>
          ih shorter.length (Nat.lt_of_lt_of_le less (lexWord_length text)) whole rfl
      rw [lex_eq, wordToken]
      split
      · exact later
      · simpa using later

theorem Whole.cons {c : Char} {text : Text} (other : c ≠ '&') (whole : Whole text) :
    Whole (c :: text) := by
  rw [Whole, pieces_other other, whole]
  rfl

theorem Whole.append {before text : Text} (others : ∀ c ∈ before, c ≠ '&')
    (whole : Whole text) : Whole (before ++ text) := by
  induction before with
  | nil => exact whole
  | cons c before ih =>
      have later := ih fun d member => others d (List.mem_cons_of_mem c member)
      exact .cons (others c List.mem_cons_self) later

theorem whole_pair {text : Text} (whole : Whole text) : Whole ('&' :: '&' :: text) := by
  rw [Whole, pieces_pair, whole]
  rfl

theorem whole_render {toks : List Token} (written : Written toks) (noAmp : Token.amp ∉ toks) :
    Whole (render toks) := by
  induction toks with
  | nil => rfl
  | cons token toks ih =>
      rw [List.mem_cons, not_or] at noAmp
      obtain ⟨other, noAmp⟩ := noAmp
      rw [render_cons, List.singleton_append]
      refine Whole.cons (by decide) ?_
      cases token with
      | word word => exact Whole.append (written.1.chars_ne rfl) (ih written.2 noAmp)
      | redirect write file =>
          have rest := Whole.append (written.1.chars_ne rfl) (ih written.2 noAmp)
          cases write with
          | true => exact rest.cons (by decide)
          | false => exact rest.cons (by decide)
      | noFile => exact (ih written.2 noAmp).cons (by decide)
      | andAnd => exact whole_pair (ih written noAmp)
      | amp => exact absurd rfl other
      | semi | pipe => exact (ih written noAmp).cons (by decide)
      | orOr => exact ((ih written noAmp).cons (by decide)).cons (by decide)

theorem whole_layout {piece : Text} (whole : Whole piece) : Whole (layout piece) := by
  apply whole_render (written_tokens piece)
  rw [tokens]
  split
  · exact List.not_mem_nil
  · exact whole.amp_notMem

/-! ## Lines -/

theorem Whole.pieces_cut {text : Text} (whole : Whole text) {rest : Text}
    (single : rest.head? ≠ some '&') : pieces (text ++ '&' :: rest) = text :: pieces rest := by
  induction text using pieces_induction with
  | nil => exact pieces_single single
  | pair text ih =>
      obtain ⟨_, same, paired⟩ := whole.pair
      cases same
      rw [List.cons_append, List.cons_append, pieces_pair, ih paired]
      rfl
  | single text alone ih =>
      obtain ⟨_, rfl, -⟩ := whole.pair
      exact absurd rfl alone
  | other c text other ih =>
      rw [List.cons_append, pieces_other other, ih (whole.tail other)]
      rfl

/-- The parts that stand behind `& ` start with the blank. -/
theorem pieces_intercalate {first : Text} {others : List Text}
    (whole : ∀ piece ∈ first :: others, Whole piece) :
    pieces (['&', ' '].intercalate (first :: others)) = first :: others.map (' ' :: ·) := by
  induction others generalizing first with
  | nil =>
      rw [List.intercalate_singleton]
      exact whole first List.mem_cons_self
  | cons next others ih =>
      have later := ih fun piece member => whole piece (List.mem_cons_of_mem first member)
      have single : (' ' :: ['&', ' '].intercalate (next :: others)).head? ≠ some '&' := by simp
      have cut := (whole first List.mem_cons_self).pieces_cut single
      rw [List.intercalate_cons_cons, List.append_assoc]
      refine cut.trans ?_
      rw [pieces_other (by decide), later]
      rfl

theorem commands_layoutLine (line : Text) : commands (layoutLine line) = commands line := by
  rw [commands, commands, layoutLine]
  have whole : ∀ piece ∈ (pieces line).map layout, Whole piece := by
    intro piece member
    obtain ⟨part, part', rfl⟩ := List.mem_map.mp member
    exact whole_layout (whole_of_mem_pieces part')
  cases parts : pieces line with
  | nil => exact absurd parts (pieces_ne_nil line)
  | cons first others =>
      rw [parts, List.map_cons] at whole
      rw [List.map_cons, pieces_intercalate whole, List.map_cons, tokens_layout, List.map_cons,
        List.map_map, List.map_map]
      congr 1
      exact List.map_congr_left fun piece _ => tokens_blank_layout piece

/-- **Two lines have the same layout when they run the same.** -/
theorem layoutLine_eq_iff (line line' : Text) : layoutLine line = layoutLine line' ↔
    commands line = commands line' := by
  constructor
  · intro same
    rw [← commands_layoutLine line, same, commands_layoutLine]
  · intro same
    have rendered : ∀ line, layoutLine line = ['&', ' '].intercalate ((commands line).map render) :=
      fun line => by
        rw [commands, List.map_map]
        rfl
    rw [rendered, same, rendered]

example : layoutLine "a>f&&b &  c;; # d".toList = " a >f && b&  c ; ;".toList := by decide +kernel

/-! ## Sessions -/

theorem nul_notMem_render {toks : List Token} (written : Written toks) : nul ∉ render toks := by
  have word : ∀ {word : Text}, IsWord word → nul ∉ word := fun isWord member =>
    isWord.chars_ne rfl nul member rfl
  induction toks with
  | nil => exact List.not_mem_nil
  | cons token toks ih =>
      rw [render_cons, List.mem_append, List.mem_append, not_or, not_or]
      refine ⟨by decide, ?_⟩
      cases token with
      | word text => exact ⟨word written.1, ih written.2⟩
      | redirect write file =>
          refine ⟨?_, ih written.2⟩
          cases write with
          | true => simpa [Token.spelling] using ⟨by decide, word written.1⟩
          | false => simpa [Token.spelling] using ⟨by decide, word written.1⟩
      | noFile => exact ⟨by decide, ih written.2⟩
      | semi | andAnd | orOr | pipe | amp => exact ⟨by decide, ih written⟩

theorem nul_notMem_layoutLine (line : Text) : nul ∉ layoutLine line := by
  rw [layoutLine]
  induction pieces line with
  | nil => exact List.not_mem_nil
  | cons piece others ih =>
      have here : nul ∉ layout piece := nul_notMem_render (written_tokens piece)
      cases others with
      | nil => simpa using here
      | cons next others =>
          rw [List.map_cons] at ih
          rw [List.map_cons, List.map_cons, List.intercalate_cons_cons, List.mem_append,
            List.mem_append, not_or, not_or]
          exact ⟨⟨here, by decide⟩, ih⟩

/-- The shell ends alike, and as many children do the same. -/
structure Outcome.Alike (env : Env W) (outcome outcome' : Outcome W) : Prop where
  result : outcome'.result = outcome.result
  jobs : outcome'.jobs.map (Job.run env) = outcome.jobs.map (Job.run env)

section Sessions

variable {env : ShellEnv W}

theorem processCommand_tokens {line line' : Text} (same : tokens line' = tokens line)
    (s : State W) : processCommand env.toEnv s line' = processCommand env.toEnv s line := by
  rw [processCommand_eq, processCommand_eq, same]

theorem runPieces_alike (responds : ∀ (s : State W) (piece piece' : Text),
      tokens piece' = tokens piece → env.background s piece' = env.background s piece)
    {parts parts' : List Text} (same : parts'.map tokens = parts.map tokens) (s : State W)
    {jobs jobs' : List (Job W)}
    (alike : jobs'.map (Job.run env.toEnv) = jobs.map (Job.run env.toEnv)) :
    (runPieces env s jobs parts).Alike env.toEnv (runPieces env s jobs' parts') := by
  induction parts generalizing parts' s jobs jobs' with
  | nil =>
      cases List.map_eq_nil_iff.mp same
      exact ⟨rfl, alike⟩
  | cons piece parts ih =>
      obtain ⟨piece', parts', rfl, here, later⟩ := List.map_eq_cons_iff.mp same
      have command : ∀ s : State W,
          processCommand env.toEnv s piece' = processCommand env.toEnv s piece :=
        processCommand_tokens here
      cases parts with
      | nil =>
          cases List.map_eq_nil_iff.mp later
          exact ⟨command s, alike⟩
      | cons next parts =>
          obtain ⟨next', parts', rfl, -, -⟩ := List.map_eq_cons_iff.mp later
          rw [runPieces, runPieces]
          split
          · exact ⟨rfl, alike⟩
          · have started : s.started env piece' = s.started env piece := by
              rw [State.started, State.started, responds s piece piece' here]
            rw [started]
            refine ih later (s.started env piece) ?_
            rw [List.map_append, List.map_append, alike]
            simp only [List.map_cons, List.map_nil, Job.run, command]

/-- Lines with the same commands are processed alike. -/
theorem process_alike (responds : ∀ (s : State W) (piece piece' : Text),
      tokens piece' = tokens piece → env.background s piece' = env.background s piece)
    {line line' : Text} (clean : nul ∉ line) (clean' : nul ∉ line')
    (same : commands line' = commands line) (s : State W) :
    (process env s line).Alike env.toEnv (process env s line') := by
  rw [process_eq env s clean, process_eq env s clean']
  exact runPieces_alike responds same s rfl

/-- **A session does not depend on the layout of its lines**, when what a child in the background
does to the world depends on what it runs. -/
theorem processLines_layout (responds : ∀ (s : State W) (piece piece' : Text),
      tokens piece' = tokens piece → env.background s piece' = env.background s piece)
    (s : State W) (lines : List Text) (clean : ∀ line ∈ lines, nul ∉ line) :
    (processLines env s lines).Alike env.toEnv (processLines env s (lines.map layoutLine)) := by
  induction lines generalizing s with
  | nil => exact ⟨rfl, rfl⟩
  | cons line lines ih =>
      have first := process_alike responds (clean line List.mem_cons_self)
        (nul_notMem_layoutLine line) (commands_layoutLine line) s
      have later := fun s => ih s fun line member => clean line (List.mem_cons_of_mem _ member)
      rw [List.map_cons, processLines, processLines]
      revert first
      cases process env s line with
      | mk jobs result =>
          cases process env s (layoutLine line) with
          | mk jobs' result' =>
              rintro ⟨same, alike⟩
              cases same
              cases result with
              | error stop => exact ⟨rfl, alike⟩
              | ok s' =>
                  refine ⟨(later s').result, ?_⟩
                  dsimp only
                  rw [List.map_append, List.map_append, (later s').jobs]
                  exact congrArg (· ++ _) alike

end Sessions

/-- A command in the background and one in the shell, with a comment. -/
def looseSession : List Text := ["ls>f  &ls".toList, "cd   d&&ls;;# &&".toList]

theorem processLines_layout_loose :
    (processLines sampleShell sampleState looseSession).Alike sampleShell.toEnv
      (processLines sampleShell sampleState (looseSession.map layoutLine)) :=
  processLines_layout (fun _ _ _ _ => rfl) sampleState looseSession (by decide)

end OsTasks.Shell
