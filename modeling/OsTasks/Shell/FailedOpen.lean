import OsTasks.Shell.Comment
import OsTasks.Shell.Conditional
import OsTasks.Shell.Skipped

/-!
# Failed redirections

When a file of a command cannot be opened, nothing of the command should be executed, and
`error` should say that it failed (`SimpleCommand.FailsCleanly`). The scanner drops the words it
has collected and reports the file, but it goes on with the rest of the command. The words after
the redirection make up a command of their own, and `error` is left as the commands before it
have set it.

`SimpleCommand.failsCleanly_iff` says when a failed redirection does what it should: the words
after the last failed redirection are none, or the command is skipped anyway; and the commands
before it happen to have failed.
-/

set_option autoImplicit false

namespace OsTasks.Shell

variable {W : Type}

/-! ## Opening the files of a command -/

/-- A word or a redirection with its file. -/
def Token.simple : Token → Bool
  | .word _ | .redirect _ _ => true
  | _ => false

variable (env : Env W)

/-- Some file of the command cannot be opened. -/
def openFails (s : State W) : List Token → Bool
  | [] => false
  | .redirect write file :: toks =>
      (s.os.openFile env file write).1.isNone ||
        openFails (redirectToken env s [] write file).1 toks
  | _ :: toks => openFails s toks

/-- The words of a command, cut at the redirections that fail. The first part starts with
`args`. -/
def segments (s : State W) (args : List Text) : List Token → List (List Text)
  | [] => [args]
  | .word word :: toks => segments s (args ++ [word]) toks
  | .redirect write file :: toks =>
      if (s.os.openFile env file write).1.isNone then
        args :: segments (redirectToken env s args write file).1 [] toks
      else segments (redirectToken env s args write file).1 args toks
  | _ :: toks => segments s args toks

theorem segments_word (s : State W) (args : List Text) (word : Text) (toks : List Token) :
    segments env s args (.word word :: toks) = segments env s (args ++ [word]) toks := rfl

theorem segments_redirect (s : State W) (args : List Text) (write : Bool) (file : Text)
    (toks : List Token) : segments env s args (.redirect write file :: toks) =
      if (s.os.openFile env file write).1.isNone then
        args :: segments env (redirectToken env s args write file).1 [] toks
      else segments env (redirectToken env s args write file).1 args toks := rfl

theorem segments_ne_nil (s : State W) (args : List Text) (toks : List Token) :
    segments env s args toks ≠ [] := by
  induction toks generalizing s args with
  | nil => exact List.cons_ne_nil _ _
  | cons token toks ih =>
      cases token with
      | word word => exact ih s (args ++ [word])
      | redirect write file =>
          rw [segments_redirect]
          split
          · exact List.cons_ne_nil _ _
          · exact ih _ args
      | noFile | semi | andAnd | orOr | pipe | amp => exact ih s args

/-- The words after the last redirection that fails. -/
def lastWords (s : State W) (args : List Text) (toks : List Token) : List Text :=
  (segments env s args toks).getLast (segments_ne_nil env s args toks)

/-- The first part grows from the words that it starts with. -/
theorem segments_head (s : State W) (args : List Text) (toks : List Token) :
    ∃ more rest, segments env s args toks = (args ++ more) :: rest := by
  induction toks generalizing s args with
  | nil =>
      refine ⟨[], [], ?_⟩
      rw [List.append_nil]
      rfl
  | cons token toks ih =>
      cases token with
      | word word =>
          obtain ⟨more, rest, found⟩ := ih s (args ++ [word])
          refine ⟨word :: more, rest, ?_⟩
          rw [segments_word, found, List.append_assoc]
          rfl
      | redirect write file =>
          rw [segments_redirect]
          split
          · exact ⟨[], _, by rw [List.append_nil]⟩
          · exact ih _ args
      | noFile | semi | andAnd | orOr | pipe | amp => exact ih s args

theorem redirectToken_args (s : State W) (args : List Text) (write : Bool) (file : Text) :
    (redirectToken env s args write file).2 =
      if (s.os.openFile env file write).1.isNone then [] else args := by
  unfold redirectToken
  cases s.os.openFile env file write with
  | mk fd os => cases fd <;> rfl

section Redirect

variable {s : State W} {args : List Text} {write : Bool} {file : Text} {toks : List Token}

theorem segments_opened (opened : (s.os.openFile env file write).1.isNone = false) :
    segments env s args (.redirect write file :: toks) =
      segments env (redirectToken env s args write file).1 args toks := by
  rw [segments_redirect, opened]
  rfl

theorem lastWords_opened (opened : (s.os.openFile env file write).1.isNone = false) :
    lastWords env s args (.redirect write file :: toks) =
      lastWords env (redirectToken env s args write file).1 args toks := by
  simp only [lastWords, segments_opened env opened]

theorem segments_failed (failed : (s.os.openFile env file write).1.isNone = true) :
    segments env s args (.redirect write file :: toks) =
      args :: segments env (redirectToken env s args write file).1 [] toks := by
  rw [segments_redirect, failed]
  rfl

theorem lastWords_failed (failed : (s.os.openFile env file write).1.isNone = true) :
    lastWords env s args (.redirect write file :: toks) =
      lastWords env (redirectToken env s args write file).1 [] toks := by
  simp only [lastWords, segments_failed env failed]
  exact List.getLast_cons _

end Redirect

/-- **The scan of a command.** Its words are collected anew after every redirection that fails,
and the words at its end are those after the last of them. -/
theorem stepTokens_segments {toks : List Token} (simple : ∀ token ∈ toks, token.simple = true)
    (s : State W) {args : List Text} (started : args.length < maxArgs) :
    (∃ s', stepTokens env (s, args) toks = .ok (s', lastWords env s args toks) ∧
        s'.error = s.error ∧ s'.conditionalRun = s.conditionalRun ∧
        commandsRun s'.os.log = commandsRun s.os.log ∧
        ∀ words ∈ segments env s args toks, words.length < maxArgs) ∨
      (∃ stop, stepTokens env (s, args) toks = .error stop) ∧
        ∃ words ∈ segments env s args toks, ¬ words.length < maxArgs := by
  induction toks generalizing s args with
  | nil =>
      refine .inl ⟨s, rfl, rfl, rfl, rfl, fun words member => ?_⟩
      cases List.mem_singleton.mp member
      exact started
  | cons token toks ih =>
      have later := fun s args =>
        @ih (fun token member => simple token (List.mem_cons_of_mem _ member)) s args
      cases token with
      | word word =>
          by_cases room : args.length + 1 < maxArgs
          · have step : stepTokens env (s, args) (.word word :: toks) =
                stepTokens env (s, args ++ [word]) toks := by
              rw [stepTokens, tokenStep, if_pos room]
              rfl
            rw [step, segments_word]
            exact later s (args ++ [word]) (by simpa using room)
          · refine .inr ⟨⟨.fault s, ?_⟩, ?_⟩
            · rw [stepTokens, tokenStep_full env s room]
              rfl
            · obtain ⟨more, rest, found⟩ := segments_head env s (args ++ [word]) toks
              rw [segments_word, found]
              refine ⟨_, List.mem_cons_self, ?_⟩
              simp only [List.length_append, List.length_singleton]
              omega
      | redirect write file =>
          obtain ⟨fd, log, flag, error⟩ := redirectToken_log env s args write file
          have words := redirectToken_args env s args write file
          have same : commandsRun (redirectToken env s args write file).1.os.log =
              commandsRun s.os.log := by
            rw [log, commandsRun_append]
            exact List.append_nil _
          have step : stepTokens env (s, args) (.redirect write file :: toks) =
              stepTokens env ((redirectToken env s args write file).1,
                (redirectToken env s args write file).2) toks := rfl
          rw [step, words]
          cases failed : (s.os.openFile env file write).1.isNone with
          | false =>
              rw [segments_opened env failed, lastWords_opened env failed, ← error, ← flag, ← same]
              exact later _ args started
          | true =>
              rw [segments_failed env failed, lastWords_failed env failed, ← error, ← flag, ← same]
              rcases later (redirectToken env s args write file).1 [] (by decide) with
                ⟨s', steps, kept, flag', log', fit⟩ | ⟨stops, words, member, long⟩
              · refine .inl ⟨s', steps, kept, flag', log', fun words member => ?_⟩
                rcases List.mem_cons.mp member with rfl | later
                · exact started
                · exact fit words later
              · exact .inr ⟨stops, words, List.mem_cons_of_mem _ member, long⟩
      | noFile | semi | andAnd | orOr | pipe | amp => cases simple _ List.mem_cons_self

/-! ## Commands of a line -/

/-- A command of words and redirections in a line: the tokens before it, up to the operator that
ends the command before, and the tokens from its end on. `start` is the state in which the
scanner comes to the command. -/
structure SimpleCommand (s : State W) (line : Text) where
  before : List Token
  command : List Token
  after : List Token
  start : State W
  splits : tokens line = before ++ (command ++ after)
  simple : ∀ token ∈ command, token.simple = true
  begins : ∀ token ∈ before.getLast?, token.ends = true
  ends : ∀ token ∈ after.head?, token.ends = true
  reached : stepTokens env (s.start, []) before = .ok (start, [])

namespace SimpleCommand

variable {env} {s : State W} {line : Text}

/-- When a file of the command cannot be opened, the command ends without having been executed,
and `error` is set: a `&&` after it does not continue, and a `||` does. -/
def FailsCleanly (c : SimpleCommand env s line) : Prop :=
  openFails env c.start c.command = true →
    ∃ s', runTokens env s.start [] (c.before ++ c.command) = .ok s' ∧
      commandsRun s'.os.log = commandsRun c.start.os.log ∧ s'.error ≠ 0 ∧
      (c.after.head? = some .andAnd →
        ∃ next, stepTokens env (s.start, []) (c.before ++ (c.command ++ [.andAnd])) = .ok next ∧
          next.1.conditionalRun = false) ∧
      (c.after.head? = some .orOr →
        ∃ next, stepTokens env (s.start, []) (c.before ++ (c.command ++ [.orOr])) = .ok next ∧
          next.1.conditionalRun = true)

/-- The command ends in the state that its words lead to. -/
theorem run (c : SimpleCommand env s line) {s₁ : State W} {args : List Text}
    (steps : stepTokens env (c.start, []) c.command = .ok (s₁, args)) :
    runTokens env s.start [] (c.before ++ c.command) = finish env s₁ args := by
  have whole := stepTokens_trans env c.reached steps
  have ended : runTokens env s.start [] ((c.before ++ c.command) ++ []) = _ :=
    runTokens_append env (c.before ++ c.command) []
  rw [List.append_nil, whole] at ended
  exact ended

theorem run_stops (c : SimpleCommand env s line) {stop : Stop W}
    (stopped : stepTokens env (c.start, []) c.command = .error stop) :
    runTokens env s.start [] (c.before ++ c.command) = .error stop := by
  have ended : runTokens env s.start [] ((c.before ++ c.command) ++ []) = _ :=
    runTokens_append env (c.before ++ c.command) []
  rw [List.append_nil, stepTokens_append, c.reached] at ended
  rw [ended]
  change (stepTokens env (c.start, []) c.command).bind _ = _
  rw [stopped]
  rfl

theorem run_operator (c : SimpleCommand env s line) {s₁ s' : State W} {args : List Text}
    (steps : stepTokens env (c.start, []) c.command = .ok (s₁, args))
    (ended : finish env s₁ args = .ok s') {op : Token} {change : State W → State W}
    (operator : op.operator = some change) :
    stepTokens env (s.start, []) (c.before ++ (c.command ++ [op])) = .ok (change s', []) := by
  refine stepTokens_trans env c.reached (stepTokens_trans env steps ?_)
  rw [stepTokens, tokenStep_operator env operator, ended]
  rfl

/-- **Failed redirections.** A command whose files cannot all be opened fails as it should exactly
when its words fit into `args`, `error` is set already, and there are no words after the last
redirection that fails or the command is skipped. -/
theorem failsCleanly_iff (c : SimpleCommand env s line) :
    c.FailsCleanly ↔ openFails env c.start c.command = false ∨
      ((∀ words ∈ segments env c.start [] c.command, words.length < maxArgs) ∧
        c.start.error ≠ 0 ∧
        (lastWords env c.start [] c.command = [] ∨ c.start.conditionalRun = false)) := by
  cases fails : openFails env c.start c.command with
  | false => exact ⟨fun _ => .inl rfl, fun _ opened => by rw [fails] at opened; cases opened⟩
  | true =>
      have scan := stepTokens_segments env c.simple c.start (show [].length < maxArgs by decide)
      constructor
      · intro cleanly
        obtain ⟨s', ran, log, error, -⟩ := cleanly fails
        rcases scan with ⟨s₁, steps, kept, flag, log₁, fit⟩ | ⟨⟨stop, stopped⟩, -⟩
        · rw [c.run steps] at ran
          have skipped : lastWords env c.start [] c.command = [] ∨ s₁.conditionalRun = false := by
            by_contra runs
            obtain ⟨nonempty, executes⟩ := not_or.mp runs
            have grown := finish_runs env (by simpa using executes) nonempty ran
            rw [log, log₁] at grown
            simp at grown
          rw [finish_skipped env skipped] at ran
          cases ran
          rw [restoreStd_error, kept] at error
          rw [flag] at skipped
          exact .inr ⟨fit, error, skipped⟩
        · rw [c.run_stops stopped] at ran
          cases ran
      · rintro (none | ⟨fit, error, skipped⟩) _
        · cases none
        · rcases scan with ⟨s₁, steps, kept, flag, log, -⟩ | ⟨-, words, member, long⟩
          · rw [← flag] at skipped
            have ended := finish_skipped env skipped
            have error' : s₁.restoreStd.error ≠ 0 := by rwa [restoreStd_error, kept]
            refine ⟨s₁.restoreStd, (c.run steps).trans ended, by rw [restoreStd_log, log], error',
              fun _ => ⟨_, c.run_operator steps ended rfl, ?_⟩,
              fun _ => ⟨_, c.run_operator steps ended rfl, ?_⟩⟩
            · exact decide_eq_false error'
            · exact decide_eq_true error'
          · exact absurd (fit words member) long

end SimpleCommand

/-- The first command of `cat < nofile ls && ls`. -/
def failedInput : SimpleCommand sampleEnv sampleState "cat < nofile ls && ls".toList where
  before := []
  command := [.word "cat".toList, .redirect false "nofile".toList, .word "ls".toList]
  after := [.andAnd, .word "ls".toList]
  start := sampleState.start
  splits := by decide
  simple := by decide
  begins := nofun
  ends := by decide
  reached := rfl

/-- The second command of `false ; cat a < nofile || ls`. -/
def failedAfterFalse :
    SimpleCommand sampleEnv sampleState "false ; cat a < nofile || ls".toList where
  before := [.word "false".toList, .semi]
  command := [.word "cat".toList, .word "a".toList, .redirect false "nofile".toList]
  after := [.orOr, .word "ls".toList]
  start := _
  splits := by decide +kernel
  simple := by decide
  begins := by decide
  ends := by decide
  reached := rfl

theorem failedAfterFalse_failsCleanly :
    openFails sampleEnv failedAfterFalse.start failedAfterFalse.command = true ∧
      failedAfterFalse.FailsCleanly := by
  have parts : segments sampleEnv failedAfterFalse.start [] failedAfterFalse.command =
      [["cat".toList, "a".toList], []] := rfl
  refine ⟨rfl, failedAfterFalse.failsCleanly_iff.mpr (.inr ⟨?_, ?_, .inl ?_⟩)⟩
  · rw [parts]
    decide
  · exact Int.ne_of_gt (by decide)
  · simp only [lastWords, parts]
    rfl

/-- `cat < nofile ls && ls` executes `ls` twice. -/
theorem words_after_failed_open_run : ¬ failedInput.FailsCleanly := by
  intro cleanly
  obtain ⟨s', ran, log, -⟩ := cleanly rfl
  have executed : (runTokens sampleEnv sampleState.start []
      (failedInput.before ++ failedInput.command)).toOption.map
        (fun s => commandsRun s.os.log) = some [["ls".toList]] := rfl
  rw [ran, Except.toOption, Option.map_some, log] at executed
  cases executed

end OsTasks.Shell
