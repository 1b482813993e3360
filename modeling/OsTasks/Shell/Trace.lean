import Mathlib.Data.List.Forall2
import OsTasks.Shell.Comment
import OsTasks.Shell.Conditional

/-!
# What a session does

What a run does depends on the world: which commands fail, which files can be opened, whether the
shell can fork. What the lines say bounds it in every world.

`session_traced` is about the lines of a session. The shell executes every command of theirs at
most once and in their order, with all of its words or the last of them, and it tries to open the
files that they name in their order. Unless it stops, it tries all of them, also those of commands
that are skipped. The children in the background get the other parts of the lines, in their order,
and are bounded by them in the same way.
-/

set_option autoImplicit false

namespace OsTasks.Shell

variable {W : Type}

/-! ## What the lines say -/

/-- The commands between the operators `;`, `&&` and `||`. The first one has some words already. -/
def commandsFrom (words : Command) : List Token → List Command
  | [] => [words]
  | .word text :: toks => commandsFrom (words ++ [text]) toks
  | .semi :: toks | .andAnd :: toks | .orOr :: toks => words :: commandsFrom [] toks
  | .redirect _ _ :: toks | .noFile :: toks | .pipe :: toks | .amp :: toks =>
      commandsFrom words toks

/-- The files that are opened, and whether for writing. -/
def targetsOf (toks : List Token) : List (Text × Bool) :=
  toks.filterMap fun token =>
    match token with
    | .redirect write file => some (file, write)
    | _ => none

/-- The files that a run tries to open. -/
def openedFiles (events : List Event) : List (Text × Bool) :=
  events.filterMap fun event =>
    match event with
    | .opened name write _ => some (name, write)
    | _ => none

/-- The events of a run are within the commands and the files. -/
structure Within (commands : List Command) (files : List (Text × Bool)) (events : List Event) :
    Prop where
  /-- Words are dropped where a file cannot be opened. -/
  commands : List.SublistForall₂ (· <:+ ·) (commandsRun events) commands
  executable : ∀ command ∈ commandsRun events, command ≠ [] ∧ command.length < maxArgs
  files : openedFiles events <+: files

/-- The run adds events within the commands and the files. When the shell goes on, the files are
the ones that it has opened. -/
def Traced (before : List Event) (commands : List Command) (files : List (Text × Bool))
    (result : Except (Stop W) (State W)) : Prop :=
  ∃ events, resultLog result = before ++ events ∧ Within commands files events ∧
    ∀ s, result = .ok s → openedFiles events = files

/-! ## One part after the other -/

theorem openedFiles_append (events events' : List Event) :
    openedFiles (events ++ events') = openedFiles events ++ openedFiles events' :=
  List.filterMap_append

theorem sublistForall₂_append {α β : Type} {R : α → β → Prop} {as as' : List α} {bs bs' : List β}
    (first : List.SublistForall₂ R as bs) (later : List.SublistForall₂ R as' bs') :
    List.SublistForall₂ R (as ++ as') (bs ++ bs') := by
  rw [List.sublistForall₂_iff] at first later ⊢
  obtain ⟨front, related, inside⟩ := first
  obtain ⟨back, related', inside'⟩ := later
  exact ⟨front ++ back, List.rel_append related related', inside.append inside'⟩

section Compose

variable {before : List Event} {commands commands' : List Command}
  {files files' : List (Text × Bool)}

theorem Traced.nothing {result : Except (Stop W) (State W)} (same : resultLog result = before)
    (complete : ∀ s, result = .ok s → files = []) : Traced before commands files result := by
  refine ⟨[], by rw [same, List.append_nil], ⟨.nil, nofun, List.nil_prefix⟩, ?_⟩
  intro s ended
  exact (complete s ended).symm

theorem Traced.halted {stop : Stop W}
    (same : resultLog (.error stop : Except (Stop W) (State W)) = before) :
    Traced before commands files (.error stop) := by
  apply Traced.nothing same
  intro s ended
  cases ended

/-- A part that stops leaves out what would follow. -/
theorem Traced.stopped {stop : Stop W} (traced : Traced before commands files (.error stop)) :
    Traced before (commands ++ commands') (files ++ files') (.error stop) := by
  obtain ⟨events, log, within, -⟩ := traced
  have longer := sublistForall₂_append within.commands
    (List.SublistForall₂.nil : List.SublistForall₂ (· <:+ ·) [] commands')
  rw [List.append_nil] at longer
  exact ⟨events, log, ⟨longer, within.executable,
    within.files.trans (List.prefix_append files files')⟩, nofun⟩

/-- **Bounds of parts make up a bound of the whole.** -/
theorem Traced.next {s : State W} {result : Except (Stop W) (State W)}
    (first : Traced before commands files (.ok s))
    (later : Traced s.os.log commands' files' result) :
    Traced before (commands ++ commands') (files ++ files') result := by
  obtain ⟨events, log, within, complete⟩ := first
  obtain ⟨events', log', within', complete'⟩ := later
  have opened := complete s rfl
  refine ⟨events ++ events', ?_, ⟨?_, ?_, ?_⟩, ?_⟩
  · rw [← List.append_assoc, ← log]
    exact log'
  · rw [commandsRun_append]
    exact sublistForall₂_append within.commands within'.commands
  · rw [commandsRun_append]
    intro command member
    exact (List.mem_append.mp member).elim (within.executable command)
      (within'.executable command)
  · rw [openedFiles_append, opened]
    exact (List.prefix_append_right_inj files).mpr within'.files
  · intro s' ended
    rw [openedFiles_append, opened, complete' s' ended]

theorem Traced.bind {result : Except (Stop W) (State W)}
    {next : State W → Except (Stop W) (State W)} (first : Traced before commands files result)
    (later : ∀ s, result = .ok s → Traced s.os.log commands' files' (next s)) :
    Traced before (commands ++ commands') (files ++ files') (result.bind next) := by
  cases result with
  | error stop => exact first.stopped
  | ok s => exact first.next (later s rfl)

end Compose

/-! ## Lines -/

section Lines

variable (env : Env W)

theorem openedFiles_execution (fds : FdTable) (command : Command) :
    openedFiles (executionEvents fds command) = [] := by
  rw [executionEvents]
  split <;> rfl

theorem finish_traced (s : State W) {args words : Command} (suffix : args <:+ words)
    (room : args.length < maxArgs) : Traced s.os.log [words] [] (finish env s args) := by
  by_cases skipped : args = [] ∨ s.conditionalRun = false
  · rw [finish_skipped env skipped]
    exact .nothing (restoreStd_log s) fun _ _ => rfl
  by_cases executes : findBuiltin args = none → env.canFork s.os.world = true
  · have ran := commandsRun_execution s.os.fds args
    have opened := openedFiles_execution s.os.fds args
    refine ⟨_, finish_executed env skipped executes, ⟨?_, ?_, ?_⟩, fun _ _ => opened⟩
    · rw [ran]
      exact .cons suffix .nil
    · rw [ran]
      intro command member
      cases List.mem_singleton.mp member
      exact ⟨fun empty => skipped (.inl empty), room⟩
    · exact ⟨[], (List.append_nil _).trans opened⟩
  · obtain ⟨found, stuck⟩ := Classical.not_imp.mp executes
    rw [finish_unforked env skipped found (Bool.eq_false_iff.mpr stuck)]
    exact .nothing rfl fun _ _ => rfl

/-- The words of the present command are the last ones of those that the line has for it. -/
theorem runTokens_traced (s : State W) {args words : Command} (suffix : args <:+ words)
    (room : args.length < maxArgs) (toks : List Token) :
    Traced s.os.log (commandsFrom words toks) (targetsOf toks) (runTokens env s args toks) := by
  induction toks generalizing s args words with
  | nil => exact finish_traced env s suffix room
  | cons token toks ih =>
      have ended : ∀ {change : State W → State W}, token.operator = some change →
          commandsFrom words (token :: toks) = words :: commandsFrom [] toks →
            targetsOf (token :: toks) = targetsOf toks →
              Traced s.os.log (commandsFrom words (token :: toks)) (targetsOf (token :: toks))
                (runTokens env s args (token :: toks)) := by
        intro change operator commands targets
        rw [runTokens_operator_cons env operator, commands, targets]
        refine (finish_traced env s suffix room).bind fun s' _ => ?_
        have later := ih (change s') (List.suffix_refl []) (by decide)
        rw [(Token.operator_same operator s').1] at later
        exact later
      cases token with
      | word text =>
          rw [runTokens, tokenStep]
          split
          · next more =>
              have grown : args ++ [text] <:+ words ++ [text] := by
                obtain ⟨front, rfl⟩ := suffix
                exact ⟨front, List.append_assoc _ _ _ |>.symm⟩
              exact ih s grown (by simpa using more)
          · exact .halted rfl
      | redirect write file =>
          obtain ⟨fd, recorded, -⟩ := redirectToken_log env s args write file
          have dropped : (redirectToken env s args write file).2 = [] ∨
              (redirectToken env s args write file).2 = args := by
            rw [redirectToken]
            cases s.os.openFile env file write with
            | mk fd os =>
                cases fd with
                | none => exact .inl rfl
                | some fd => exact .inr rfl
          change Traced _ _ _ (runTokens env (redirectToken env s args write file).1
            (redirectToken env s args write file).2 toks)
          generalize redirectToken env s args write file = next at recorded dropped ⊢
          have first : Traced s.os.log [] [(file, write)] (.ok next.1) :=
            ⟨_, recorded, ⟨.nil, List.forall_mem_nil _, List.prefix_refl _⟩, fun _ _ => rfl⟩
          have later : Traced next.1.os.log (commandsFrom words toks) (targetsOf toks)
              (runTokens env next.1 next.2 toks) := by
            rcases dropped with none | kept
            · rw [none]
              exact ih next.1 List.nil_suffix (by decide)
            · rw [kept]
              exact ih next.1 suffix room
          exact first.next later
      | noFile => exact .halted rfl
      | semi | andAnd | orOr => exact ended rfl rfl rfl
      | pipe | amp => exact ih s suffix room

/-- The commands of a text that `process_command` reads. -/
def commandsOf (piece : Text) : List Command := commandsFrom [] (tokens piece)

/-- The files that a piece names. -/
def filesOf (piece : Text) : List (Text × Bool) := targetsOf (tokens piece)

theorem processCommand_traced (s : State W) (piece : Text) :
    Traced s.os.log (commandsOf piece) (filesOf piece) (processCommand env s piece) := by
  rw [processCommand_eq]
  exact runTokens_traced env s.start (List.suffix_refl []) (by decide) (tokens piece)

end Lines

/-! ## Sessions -/

section Sessions

variable (env : ShellEnv W)

/-- The parts of a line that are for children. -/
def backgroundParts (line : Text) : List Text := (pieces line).dropLast

/-- The children get the parts in their order, all of them when the shell goes on. -/
def Started (parts : List Text) (jobs : List (Job W)) (result : Except (Stop W) (State W)) :
    Prop :=
  jobs.map Job.line <+: parts ∧ ∀ s, result = .ok s → jobs.map Job.line = parts

theorem Started.none {parts : List Text} {result : Except (Stop W) (State W)}
    (complete : ∀ s, result = .ok s → parts = []) : Started parts [] result :=
  ⟨List.nil_prefix, fun s ended => (complete s ended).symm⟩

theorem Started.halted {parts : List Text} {stop : Stop W} :
    Started parts [] (.error stop : Except (Stop W) (State W)) := by
  apply Started.none
  intro s ended
  cases ended

/-- The shell runs the last part of a line, and children get the others. -/
theorem runPieces_traced {parts : List Text} (nonempty : parts ≠ []) (s : State W)
    (jobs : List (Job W)) :
    Traced s.os.log (commandsOf (parts.getLast nonempty)) (filesOf (parts.getLast nonempty))
        (runPieces env s jobs parts).result ∧
      ∃ started, (runPieces env s jobs parts).jobs = jobs ++ started ∧
        Started parts.dropLast started (runPieces env s jobs parts).result := by
  induction parts generalizing s jobs with
  | nil => exact absurd rfl nonempty
  | cons piece parts ih =>
      cases parts with
      | nil =>
          exact ⟨processCommand_traced env.toEnv s piece, [], (List.append_nil jobs).symm,
            .none fun _ _ => rfl⟩
      | cons next parts =>
          rw [runPieces]
          split
          · exact ⟨.halted rfl, [], (List.append_nil jobs).symm, .halted⟩
          · obtain ⟨traced, started, later, inside, complete⟩ := ih (List.cons_ne_nil next parts)
              (s.started env piece) (jobs ++ [⟨s, piece⟩])
            refine ⟨traced, ⟨s, piece⟩ :: started, ?_, ?_, ?_⟩
            · rw [later, List.append_assoc]
              rfl
            · exact (List.prefix_append_right_inj [piece]).mpr inside
            · intro s' ended
              exact congrArg (piece :: ·) (complete s' ended)

theorem process_traced (s : State W) {line : Text} (clean : nul ∉ line) :
    Traced s.os.log (commandsOf (lastPiece line)) (filesOf (lastPiece line))
        (process env s line).result ∧
      Started (backgroundParts line) (process env s line).jobs (process env s line).result := by
  rw [process_eq env s clean]
  obtain ⟨traced, started, jobs, inside⟩ := runPieces_traced env (pieces_ne_nil line) s []
  refine ⟨traced, ?_⟩
  rw [jobs]
  exact inside

/-- What the lines of a session say about it. -/
structure SessionTraced (s : State W) (lines : List Text) (outcome : Outcome W) : Prop where
  foreground : Traced s.os.log (lines.flatMap fun line => commandsOf (lastPiece line))
    (lines.flatMap fun line => filesOf (lastPiece line)) outcome.result
  started : Started (lines.flatMap backgroundParts) outcome.jobs outcome.result
  background : ∀ job ∈ outcome.jobs, Traced job.state.os.log (commandsOf job.line)
    (filesOf job.line) (processCommand env.toEnv job.state job.line)

/-- **What a session does is in its lines.** -/
theorem session_traced (s : State W) (lines : List Text) (clean : ∀ line ∈ lines, nul ∉ line) :
    SessionTraced env s lines (processLines env s lines) := by
  have background := fun job : Job W => processCommand_traced env.toEnv job.state job.line
  induction lines generalizing s with
  | nil => exact ⟨.nothing rfl fun _ _ => rfl, .none fun _ _ => rfl, fun job _ => background job⟩
  | cons line lines ih =>
      have later := fun s => ih s fun line member => clean line (List.mem_cons_of_mem _ member)
      obtain ⟨traced, inside, complete⟩ := process_traced env s (clean line List.mem_cons_self)
      revert traced inside complete
      rw [processLines]
      cases process env s line with
      | mk jobs result =>
          intro traced inside complete
          cases result with
          | error stop =>
              exact ⟨traced.stopped, ⟨inside.trans (List.prefix_append _ _), nofun⟩,
                fun job _ => background job⟩
          | ok s' =>
              obtain ⟨rest, ⟨inside', complete'⟩, -⟩ := later s'
              have all := complete s' rfl
              refine ⟨traced.next rest, ⟨?_, ?_⟩, fun job _ => background job⟩
              · rw [List.map_append, all]
                exact (List.prefix_append_right_inj _).mpr inside'
              · intro s₁ ended
                rw [List.map_append, all, complete' s₁ ended]
                rfl

end Sessions

/-- A skipped command with a redirection, and a child in the background. -/
def tracedSession : List Text := ["false && ls > f & cat < f g".toList, "status ; exit".toList]

theorem session_traced_sample : SessionTraced sampleShell sampleState tracedSession
    (processLines sampleShell sampleState tracedSession) :=
  session_traced sampleShell sampleState tracedSession (by decide)

end OsTasks.Shell
