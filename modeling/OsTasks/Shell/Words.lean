import OsTasks.Shell.Comment
import OsTasks.Shell.Conditional

/-!
# Lines of words

A line without operators is one command. Its words are what blanks separate (`wordsIn`), in any
arrangement, up to a comment or a newline (`WordLine`).

The scanner leaves its loop in one of three ways on such a line: at the newline or the `#`, at
the NUL that ends a word, or at the NUL in the test of the loop. On each of them the command is
run once (`processCommand_words`).
-/

set_option autoImplicit false

namespace OsTasks.Shell

variable {W : Type}

/-! ## The words of a line -/

/-- A blank or a tab. -/
def isBlank (c : Char) : Bool := c = ' ' ∨ c = '\t'

/-- A character of a word: no white space, no sign of the shell language and not NUL. -/
def isPlain (c : Char) : Bool := !isspace c && isWordChar c

/-- What blanks separate. -/
def wordsIn (body : Text) : List Text := (body.splitOnP isBlank).filter (· ≠ [])

/-- The end of a line of words: nothing, a newline or a comment. -/
inductive LineEnd : Text → Prop
  | nothing : LineEnd []
  | newline : LineEnd ['\n']
  | comment (text : Text) : LineEnd ('#' :: text)

/-- A line of words and blanks in any arrangement, and its end. -/
structure WordLine (body tail : Text) : Prop where
  chars : ∀ c ∈ body, isBlank c = true ∨ isPlain c = true
  ends : LineEnd tail
  few : (wordsIn body).length < maxArgs

theorem isBlank_iff {c : Char} : isBlank c = true ↔ c = ' ' ∨ c = '\t' := by simp [isBlank]

theorem wordsIn_blank {c : Char} (blank : isBlank c = true) (body : Text) :
    wordsIn (c :: body) = wordsIn body := by
  have split := List.splitOnP_append_cons (p := isBlank) [] body blank
  rw [List.nil_append, List.splitOnP_nil] at split
  rw [wordsIn, split]
  rfl

theorem wordsIn_word {word : Text} (nonempty : word ≠ []) (chars : ∀ c ∈ word, isBlank c = false) :
    wordsIn word = [word] := by
  rw [wordsIn, List.splitOnP_eq_singleton chars]
  exact List.filter_cons_of_pos (by simpa using nonempty)

theorem wordsIn_append {word : Text} (nonempty : word ≠ [])
    (chars : ∀ c ∈ word, isBlank c = false) {c : Char} (blank : isBlank c = true) (body : Text) :
    wordsIn (word ++ c :: body) = word :: wordsIn body := by
  rw [wordsIn, List.splitOnP_append_cons_of_forall_mem chars c blank]
  exact List.filter_cons_of_pos (by simpa using nonempty)

/-! ## Reading the line -/

theorem LineEnd.lex {tail : Text} (ends : LineEnd tail) : lex tail = [] := by
  cases ends with
  | nothing => rfl
  | newline => rfl
  | comment text => exact lex_visible (by decide) (by decide) text

theorem LineEnd.lexDelimiter {tail : Text} (ends : LineEnd tail) :
    lexDelimiter Shell.lex tail = [] := by
  cases ends <;> rfl

theorem LineEnd.stops {tail : Text} (ends : LineEnd tail) :
    isWordChar (tail.headD nul) = false := by
  cases ends <;> rfl

theorem isWord_of_plain {word : Text} (plain : ∀ c ∈ word, isPlain c = true)
    (nonempty : word ≠ []) : IsWord word := by
  have chars : ∀ c ∈ word, isspace c = false ∧ isWordChar c = true := by
    intro c member
    simpa [isPlain] using plain c member
  refine ⟨nonempty, fun c member => (chars c member).2, ?_⟩
  cases word with
  | nil => exact absurd rfl nonempty
  | cons c word => exact (chars c List.mem_cons_self).1

/-- The word that a text starts with, and what is left from the blank after it on. -/
theorem exists_first_word {c : Char} (visible : isBlank c = false) (body : Text) :
    ∃ word rest, c :: body = word ++ rest ∧ word ≠ [] ∧ (∀ d ∈ word, isBlank d = false) ∧
      ∀ d ∈ rest.head?, isBlank d = true := by
  refine ⟨(c :: body).takeWhile (!isBlank ·), (c :: body).dropWhile (!isBlank ·),
    List.takeWhile_append_dropWhile.symm, ?_, ?_, ?_⟩
  · rw [List.takeWhile_cons_of_pos (by rw [visible]; rfl)]
    exact List.cons_ne_nil _ _
  · intro d member
    simpa using List.mem_takeWhile_imp member
  · intro d first
    have stops := List.head?_dropWhile_not (!isBlank ·) (c :: body)
    rw [Option.mem_def.mp first] at stops
    simpa using stops

/-- The tokens of a line of words. The induction goes from one word to the next. -/
theorem lex_words {tail : Text} (ends : LineEnd tail) (body : Text)
    (chars : ∀ c ∈ body, isBlank c = true ∨ isPlain c = true) :
    lex (body ++ tail) = (wordsIn body).map .word := by
  induction length : body.length using Nat.strongRecOn generalizing body with
  | _ n ih =>
      subst length
      cases body with
      | nil => exact ends.lex
      | cons c body =>
          by_cases blank : isBlank c = true
          · have blanks : Blanks [c] := by
              intro d member
              exact List.mem_singleton.mp member ▸ isBlank_iff.mp blank
            have skipped : lex (c :: (body ++ tail)) = lex (body ++ tail) := lex_blanks blanks _
            rw [List.cons_append, skipped, wordsIn_blank blank]
            exact ih body.length (Nat.lt_succ_self _) body
              (fun d member => chars d (List.mem_cons_of_mem c member)) rfl
          · obtain ⟨word, rest, split, first, visible, stop⟩ :=
              exists_first_word (Bool.eq_false_iff.mpr blank) body
            rw [split] at chars ih ⊢
            have isWord : IsWord word := by
              refine isWord_of_plain (fun d member => ?_) first
              rcases chars d (List.mem_append_left _ member) with space | plain
              · rw [visible d member] at space
                cases space
              · exact plain
            rw [List.append_assoc]
            cases rest with
            | nil =>
                rw [List.append_nil, List.nil_append, lex_eq, lexWord_word isWord ends.stops,
                  ends.lexDelimiter, wordsIn_word first visible, wordToken, if_neg first]
                rfl
            | cons d rest =>
                have blank : isBlank d = true := stop d rfl
                have next : lexDelimiter lex (d :: rest ++ tail) = lex (rest ++ tail) := by
                  rcases isBlank_iff.mp blank with rfl | rfl <;> rfl
                have stops : isWordChar ((d :: rest ++ tail).headD nul) = false := by
                  rcases isBlank_iff.mp blank with rfl | rfl <;> rfl
                rw [lex_eq, lexWord_word isWord stops, next,
                  wordsIn_append first visible blank, wordToken, if_neg first]
                refine congrArg (Token.word word :: ·) (ih rest.length ?_ rest ?_ rfl)
                · simp only [List.length_append, List.length_cons]
                  omega
                · intro e member
                  exact chars e (List.mem_append_right _ (List.mem_cons_of_mem d member))

theorem WordLine.stopsAtOnce {body tail : Text} (plain : WordLine body tail) :
    stopsAtOnce (body ++ tail) = false := by
  cases body with
  | nil =>
      cases plain.ends with
      | nothing => rfl
      | newline => rfl
      | comment text => exact stopsAtOnce_of_first text (by decide) (by decide) (by decide)
  | cons c body =>
      refine stopsAtOnce_of_first _ ?_ ?_ ?_
      all_goals
        rintro rfl
        rcases plain.chars _ List.mem_cons_self with no | no <;> cases no

theorem WordLine.tokens {body tail : Text} (plain : WordLine body tail) :
    tokens (body ++ tail) = (wordsIn body).map .word := by
  rw [Shell.tokens, if_neg (by simp [plain.stopsAtOnce]), lex_words plain.ends body plain.chars]

/-! ## Running the line -/

variable (env : Env W)

/-- **Lines of words.** `process_command` runs the words of the line as one command: it calls
`run_command` once with these words, and executes this command and no other one, or none when
there are no words. -/
theorem processCommand_words {body tail : Text} (plain : WordLine body tail) (s : State W) :
    processCommand env s (body ++ tail) = finish env s.start (wordsIn body) ∧
      (wordsIn body = [] → processCommand env s (body ++ tail) = .ok s.start) ∧
        (env.canFork s.os.world = true →
          commandsRun (resultLog (processCommand env s (body ++ tail))) =
            commandsRun s.os.log ++ (if wordsIn body = [] then [] else [wordsIn body])) := by
  have runs : processCommand env s (body ++ tail) = finish env s.start (wordsIn body) := by
    have words := runTokens_words env s.start [] (wordsIn body) [] (by simpa using plain.few)
    rw [List.append_nil] at words
    rw [processCommand_eq, plain.tokens, words]
    rfl
  have std : s.start.Std := rfl
  refine ⟨runs, fun empty => ?_, fun forks => ?_⟩
  · rw [runs, empty]
    exact finish_nil env std
  · rw [runs]
    split
    · next empty =>
        rw [empty, finish_nil env std, List.append_nil]
        rfl
    · next nonempty =>
        have execute : ¬ (wordsIn body = [] ∨ s.start.conditionalRun = false) := by
          simp [nonempty, State.start]
        rw [finish_executed env execute (fun _ => forks), commandsRun_append,
          commandsRun_execution]
        rfl

/-- The words of `  ls -l` before a comment and a newline. -/
theorem processCommand_words_sample :
    WordLine " \tls  -l ".toList "# a ; b\n".toList ∧
      wordsIn " \tls  -l ".toList = ["ls".toList, "-l".toList] ∧
        commandsRun (resultLog (processCommand sampleEnv sampleState
          (" \tls  -l ".toList ++ "# a ; b\n".toList))) = [["ls".toList, "-l".toList]] := by
  have words : wordsIn " \tls  -l ".toList = ["ls".toList, "-l".toList] := by decide
  have chars : " \tls  -l ".toList.all (fun c => isBlank c || isPlain c) = true := by
    rfl
  have plain : WordLine " \tls  -l ".toList "# a ; b\n".toList :=
    { chars := by
        intro c inside
        exact Bool.or_eq_true_iff.mp (List.all_eq_true.mp chars c inside)
      ends := .comment _
      few := by rw [words]; decide }
  have ran := (processCommand_words sampleEnv plain sampleState).2.2 rfl
  rw [words] at ran
  exact ⟨plain, words, ran⟩

end OsTasks.Shell
