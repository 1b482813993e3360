import OsTasks.Shell.Conditional

/-!
# Pipelines

What a pipeline `c1 | c2 | … | cn` is for: `n` commands run, each with its own words, and each
writes into the pipe that the next one reads (`PipelineRun`).

The shell has the code for this in `run_pipe`, but never calls it. The case `'|'` of the
scanner tests `*narg`, the place after the last word, which is always `NULL`. A `|` between
two words is a blank to the scanner: `c1 | c2` is the one command `c1 c2`
(`runTokens_plain`), and no pipeline is ever executed (`processCommand_not_pipeline`).
-/

set_option autoImplicit false

namespace OsTasks.Shell

variable {W : Type}

/-! ## What a pipeline is for -/

/-- The tokens of a pipeline. -/
def pipelineTokens (first : Command) (rest : List Command) : List Token :=
  first.map .word ++ rest.flatMap fun command => .pipe :: command.map .word

/-- The commands of a log with the descriptors they ran with. -/
def executed (log : List Event) : List (Command × FdTable) :=
  log.filterMap fun event =>
    match event with
    | .builtin argv fds | .launch argv fds => some (argv, fds)
    | .opened _ _ _ | .wait => none

/-- The standard output of the first process is the standard input of the second. -/
def PipedTo (writer reader : Command × FdTable) : Prop :=
  ∃ index, FdTable.get writer.2 (some stdoutFileno) = some (.pipeWrite index) ∧
    FdTable.get reader.2 (some stdinFileno) = some (.pipeRead index)

/-- What a run records when it executes a pipeline: the commands in their order, each piped to
the next, the first one with the standard input of the shell and the last one with its
standard output. The shell waits for the last command, unless that is a builtin one. -/
structure PipelineEvents (fds : FdTable) (commands : List Command) (events : List Event) :
    Prop where
  words : (executed events).map Prod.fst = commands
  piped : (executed events).IsChain PipedTo
  first : ∀ process ∈ (executed events).head?,
    FdTable.get process.2 (some stdinFileno) = FdTable.get fds (some stdinFileno)
  last : ∀ process ∈ (executed events).getLast?,
    FdTable.get process.2 (some stdoutFileno) = FdTable.get fds (some stdoutFileno)
  waits : ∀ command ∈ commands.getLast?, findBuiltin command = none →
    events.getLast? = some .wait

/-- The shell executes a pipeline and returns. -/
def PipelineRun (s : State W) (commands : List Command) (result : Except (Stop W) (State W)) :
    Prop :=
  ∃ s' events, result = .ok s' ∧ s'.os.log = s.os.log ++ events ∧
    PipelineEvents s.os.fds commands events

-- `run_pipe` and then `run_command` is a pipeline of two commands.
example : PipelineRun sampleState [["a".toList], ["b".toList]]
    (runPipe sampleEnv sampleState ["a".toList] >>= fun result =>
      finish sampleEnv result.2 ["b".toList]) :=
  ⟨_, _, rfl, rfl, ⟨rfl, .cons_cons ⟨0, by decide +kernel⟩ (.singleton _), by decide +kernel,
    by decide +kernel, by decide⟩⟩

/-! ## What the shell does -/

variable (env : Env W)

theorem commandsRun_eq (log : List Event) : commandsRun log = (executed log).map Prod.fst := by
  rw [commandsRun, executed, List.map_filterMap]
  congr 1
  funext event
  cases event <;> rfl

theorem pipelineTokens_plain (first : Command) (rest : List Command) :
    ∀ token ∈ pipelineTokens first rest, token.plain = true := by
  intro token member
  rcases List.mem_append.mp member with inFirst | inRest
  · exact plain_words first token inFirst
  · obtain ⟨command, -, inCommand⟩ := List.mem_flatMap.mp inRest
    rcases List.mem_cons.mp inCommand with rfl | isWord
    · rfl
    · exact plain_words command token isWord

/-- The shell executes one command at most where a line has words and pipes only. -/
theorem commandsRun_plain {toks : List Token} (plain : ∀ token ∈ toks, token.plain = true)
    (nonempty : wordsOf toks ≠ []) {s s' : State W} (runs : s.conditionalRun = true)
    (ran : runTokens env s [] toks = .ok s') :
    commandsRun s'.os.log = commandsRun s.os.log ++ [wordsOf toks] := by
  have collected := runTokens_plain env plain s (show [].length < maxArgs by decide) []
  rw [List.append_nil, List.nil_append, ran] at collected
  split at collected
  · exact finish_runs env runs nonempty collected.symm
  · cases collected

/-- **No pipeline is executed.** However it is spelled and whatever its commands do, a pipeline
of two or more commands is executed as one command with all their words, or as none. -/
theorem processCommand_not_pipeline {first second : Command} {others : List Command} {line : Text}
    (nonempty : first ≠ []) (spells : Spells (pipelineTokens first (second :: others)) line)
    (s : State W) :
    ¬ PipelineRun s (first :: second :: others) (processCommand env s line) := by
  rintro ⟨s', events, returns, log, pipeline⟩
  obtain ⟨word, words, rfl⟩ := List.exists_cons_of_ne_nil nonempty
  have read : tokens line = pipelineTokens (word :: words) (second :: others) :=
    tokens_of_spells spells
  rw [processCommand_eq, read] at returns
  have one := commandsRun_plain env (pipelineTokens_plain _ _) (by simp [pipelineTokens, wordsOf])
    (s := s.start) rfl returns
  rw [log, commandsRun_append] at one
  have commands := List.append_cancel_left one
  rw [commandsRun_eq, pipeline.words] at commands
  have lengths := congrArg List.length commands
  simp at lengths

/-- The words `a` and `b` with a pipe between them. -/
def samplePipeline : List (Text × Token) :=
  [("".toList, .word "a".toList), (" ".toList, .pipe), (" ".toList, .word "b".toList)]

theorem processCommand_not_pipeline_sample :
    Spells (pipelineTokens ["a".toList] [["b".toList]]) "a | b".toList ∧
      ¬ PipelineRun sampleState [["a".toList], ["b".toList]]
        (processCommand sampleEnv sampleState "a | b".toList) := by
  have spaced : WellSpaced [] samplePipeline := by decide +kernel
  have spells : Spells (pipelineTokens ["a".toList] [["b".toList]]) "a | b".toList :=
    spells_spell spaced
  exact ⟨spells, processCommand_not_pipeline sampleEnv (List.cons_ne_nil _ _) spells sampleState⟩

/-- `a | b` launches one process. -/
theorem pipeline_launches_once :
    ¬ ∀ (first : Command) (rest : List Command) (line : Text), rest ≠ [] →
      (∀ command ∈ first :: rest, command ≠ [] ∧ command.length < maxArgs) →
        Spells (pipelineTokens first rest) line →
          PipelineRun sampleState (first :: rest) (processCommand sampleEnv sampleState line) := by
  intro law
  have spaced : WellSpaced [] samplePipeline := by decide
  obtain ⟨s', events, returns, log, pipeline⟩ := law ["a".toList] [["b".toList]] "a | b".toList
    (List.cons_ne_nil _ _) (by decide +kernel) (spells_spell spaced)
  have once : (processCommand sampleEnv sampleState "a | b".toList).toOption.map
      (fun s => (executed s.os.log).length) = some 1 := rfl
  have twice := congrArg List.length pipeline.words
  rw [returns, Except.toOption, Option.map_some, log] at once
  rw [List.length_map] at twice
  have same : (executed events).length = 1 := Option.some.inj once
  rw [same] at twice
  cases twice

end OsTasks.Shell
