import OsTasks.Shell.Background
import OsTasks.Shell.Sequence
import OsTasks.Shell.Skipped

/-!
# Comments

A comment should be inert: `A#B` should run what `A` runs, in the foreground and in the
background (`Inert`). For `process_command` it is, since the scanner stops at the `#`
(`processCommand_comment`). But `process` looks for `&` in the comment as well. An `&` that
stands alone there moves what is before it into the background, and what is after it is run
as a command. `inert_iff` says exactly when the comment is inert all the same: no such `&` is
in it, or there is nothing to run before it and after it (`silent`).
-/

set_option autoImplicit false

namespace OsTasks.Shell

open OsTasks.Lib

variable {W : Type}

/-! ## The scanner stops at a comment -/

/-- A comment has no tokens. -/
theorem tokens_comment (A B : Text) : tokens (A ++ '#' :: B) = tokens A := by
  have start : stopsAtOnce (A ++ '#' :: B) = stopsAtOnce A := by
    by_cases empty : A = []
    · rw [empty]
      rfl
    · exact stopsAtOnce_append empty (by decide) B
  have lexed : lex (A ++ '#' :: B) = lex A ++ [] :=
    lex_append (by decide) (by decide) (by decide) rfl A (.inr rfl)
  rw [tokens, tokens, start, lexed, List.append_nil]

/-- To `process_command` a comment is nothing. -/
theorem processCommand_comment (env : Env W) (s : State W) (A B : Text) :
    processCommand env s (A ++ '#' :: B) = processCommand env s A := by
  rw [processCommand_eq, processCommand_eq, tokens_comment]

/-! ## What a run records -/

/-- What the shell itself has recorded. -/
def Outcome.foreground (outcome : Outcome W) : List Event := resultLog outcome.result

/-- What a child in the background records on its own. -/
def Job.events (env : Env W) (job : Job W) : List Event :=
  (job.run env).log.drop job.state.os.log.length

/-- What the children in the background record, one child after the other. -/
def Outcome.background (env : Env W) (outcome : Outcome W) : List Event :=
  outcome.jobs.flatMap (Job.events env)

/-- The comment `B` is inert: with it or without it, the line runs the same commands and opens
the same files, in the foreground and in the background. -/
def Inert (A B : Text) : Prop :=
  ∀ (W : Type) (env : ShellEnv W) (s : State W),
    (process env s (A ++ '#' :: B)).foreground = (process env s A).foreground ∧
    (process env s (A ++ '#' :: B)).background env.toEnv = (process env s A).background env.toEnv

/-! ## Nothing to run -/

/-- No run of the tokens executes a command or opens a file, whatever the environment; the
present command has `words` words so far. A line that stops the shell before that is silent
too. -/
def silentFrom : Nat → List Token → Bool
  | words, [] => words = 0
  | words, .word _ :: toks => !(words + 1 < maxArgs) || silentFrom (words + 1) toks
  | _, .redirect _ _ :: _ => false
  | _, .noFile :: _ => true
  | words, .semi :: toks | words, .andAnd :: toks | words, .orOr :: toks =>
      words = 0 && silentFrom 0 toks
  | words, .pipe :: toks | words, .amp :: toks => silentFrom words toks

/-- There is nothing to run in the line. -/
def silent (line : Text) : Bool := silentFrom 0 (tokens line)

variable (env : Env W)

theorem runTokens_silent {toks : List Token} {args : List Text}
    (quiet : silentFrom args.length toks = true) (s : State W) :
    resultLog (runTokens env s args toks) = s.os.log := by
  induction toks generalizing s args with
  | nil =>
      obtain rfl : args = [] := by simpa [silentFrom] using quiet
      exact restoreStd_log s
  | cons token toks ih =>
      -- The tokens that end a command do so without words.
      have ended : ∀ {change : State W → State W}, token.operator = some change →
          (args.length = 0 && silentFrom 0 toks) = true →
            resultLog (runTokens env s args (token :: toks)) = s.os.log := by
        intro change operator wordless
        simp only [Bool.and_eq_true, decide_eq_true_eq, List.length_eq_zero_iff] at wordless
        obtain ⟨rfl, later⟩ := wordless
        rw [runTokens_operator_cons env operator, finish_skipped env (.inl rfl)]
        refine (@ih [] later _).trans ?_
        rw [(Token.operator_same operator _).1]
        exact restoreStd_log s
      cases token with
      | word text =>
          rw [runTokens, tokenStep]
          split
          · next room =>
              refine @ih (args ++ [text]) ?_ s
              have words : args.length + 1 < maxArgs := room
              simpa [silentFrom, words] using quiet
          · rfl
      | redirect write file => cases quiet
      | noFile => rfl
      | semi | andAnd | orOr => exact ended rfl quiet
      | pipe | amp => exact ih quiet s

/-- A silent line records nothing. -/
theorem processCommand_silent {line : Text} (quiet : silent line = true) (s : State W) :
    resultLog (processCommand env s line) = s.os.log := by
  rw [processCommand_eq]
  exact @runTokens_silent W env (tokens line) [] quiet s.start

/-! ## Something to run -/

/-- A command that runs is recorded. -/
theorem finish_records (forks : ∀ world, env.canFork world = true) {s : State W} {args : List Text}
    (runs : ¬ (args = [] ∨ s.conditionalRun = false)) :
    s.os.log.length < (resultLog (finish env s args)).length := by
  rw [finish_executed env runs (fun _ => forks _), List.length_append]
  have events := List.length_pos_iff.mpr (executionEvents_ne_nil s.os.fds args)
  omega

/-- The end of a command adds to the log. -/
theorem finish_log (s : State W) (args : List Text) :
    s.os.log.length ≤ (resultLog (finish env s args)).length := by
  by_cases skipped : args = [] ∨ s.conditionalRun = false
  · rw [finish_skipped env skipped, resultLog, restoreStd_log]
  · by_cases executes : findBuiltin args = none → env.canFork s.os.world = true
    · rw [finish_executed env skipped executes, List.length_append]
      exact Nat.le_add_right _ _
    · obtain ⟨found, stuck⟩ := Classical.not_imp.mp executes
      rw [finish_unforked env skipped found (Bool.eq_false_iff.mpr stuck)]
      exact Nat.le_refl _

theorem runTokens_log (s : State W) (args : List Text) (toks : List Token) :
    s.os.log.length ≤ (resultLog (runTokens env s args toks)).length := by
  induction toks generalizing s args with
  | nil => exact finish_log env s args
  | cons token toks ih =>
      have ended : ∀ {change : State W → State W}, token.operator = some change →
          s.os.log.length ≤ (resultLog (runTokens env s args (token :: toks))).length := by
        intro change operator
        have first := finish_log env s args
        rw [runTokens_operator_cons env operator]
        cases finished : finish env s args with
        | error stop =>
            rw [finished] at first
            exact first
        | ok s₁ =>
            rw [finished] at first
            have later := ih (change s₁) []
            rw [(Token.operator_same operator s₁).1] at later
            exact le_trans first later
      cases token with
      | word text =>
          rw [runTokens, tokenStep]
          split
          · exact ih s (args ++ [text])
          · exact Nat.le_refl _
      | redirect write file =>
          obtain ⟨fd, recorded, -⟩ := redirectToken_log env s args write file
          have later := ih (redirectToken env s args write file).1
            (redirectToken env s args write file).2
          rw [recorded, List.length_append] at later
          exact le_trans (Nat.le_add_right _ _) later
      | noFile => exact Nat.le_refl _
      | semi | andAnd | orOr => exact ended rfl
      | pipe | amp => exact ih s args

/-- A line that is not silent records something for some status that the line starts with. The
status decides which commands run: `flag` is what `conditional_run` is for it. -/
theorem runTokens_records (forks : ∀ world, env.canFork world = true) {toks : List Token}
    {args : List Text} (loud : silentFrom args.length toks = false) (flag : Int → Bool)
    (possible : ∃ status, flag status = true) :
    ∃ status, ∀ s : State W, s.error = status → s.conditionalRun = flag status →
      s.os.log.length < (resultLog (runTokens env s args toks)).length := by
  induction toks generalizing args flag with
  | nil =>
      obtain ⟨status, set⟩ := possible
      refine ⟨status, fun s _ runs => finish_records env forks ?_⟩
      rw [runs, set]
      simpa [silentFrom] using loud
  | cons token toks ih =>
      -- A command with words ends, or the flag is computed anew for the next command.
      have ended : ∀ {change : State W → State W} (next : Int → Bool),
          token.operator = some change →
          (∀ s status, s.error = status → s.conditionalRun = flag status →
            (change s).conditionalRun = next status) →
          (∃ status, next status = true) → (args.length = 0 && silentFrom 0 toks) = false →
            ∃ status, ∀ s : State W, s.error = status → s.conditionalRun = flag status →
              s.os.log.length < (resultLog (runTokens env s args (token :: toks))).length := by
        intro change next operator computed later loud
        by_cases empty : args = []
        · subst empty
          obtain ⟨status, grows⟩ := @ih [] (by simpa using loud) next later
          refine ⟨status, fun s error runs => ?_⟩
          obtain ⟨sameOs, sameError, -⟩ := Token.operator_same operator s.restoreStd
          have error' : s.restoreStd.error = status := (restoreStd_error s).trans error
          have recorded := grows (change s.restoreStd) (sameError.trans error')
            (computed _ status error' ((restoreStd_runs s).trans runs))
          rw [sameOs, restoreStd_log] at recorded
          rw [runTokens_operator_cons env operator, finish_skipped env (.inl rfl)]
          exact recorded
        · obtain ⟨status, set⟩ := possible
          refine ⟨status, fun s _ runs => ?_⟩
          have executes : ¬ (args = [] ∨ s.conditionalRun = false) := by simp [empty, runs, set]
          have recorded := finish_records env forks executes
          rw [runTokens_operator_cons env operator]
          cases finished : finish env s args with
          | error stop =>
              rw [finished] at recorded
              exact recorded
          | ok s₁ =>
              rw [finished] at recorded
              have more := runTokens_log env (change s₁) [] toks
              rw [(Token.operator_same operator s₁).1] at more
              exact lt_of_lt_of_le recorded more
      cases token with
      | word text =>
          by_cases room : args.length + 1 < maxArgs
          · obtain ⟨status, grows⟩ := @ih (args ++ [text]) (by simpa [silentFrom, room] using loud)
              flag possible
            refine ⟨status, fun s error runs => ?_⟩
            rw [runTokens, tokenStep, if_pos room]
            exact grows s error runs
          · simp [silentFrom, room] at loud
      | redirect write file =>
          refine ⟨0, fun s _ _ => ?_⟩
          obtain ⟨fd, recorded, -⟩ := redirectToken_log env s args write file
          have more := runTokens_log env (redirectToken env s args write file).1
            (redirectToken env s args write file).2 toks
          rw [recorded, List.length_append, List.length_singleton] at more
          exact more
      | noFile => cases loud
      | semi => exact ended flag rfl (fun _ _ _ runs => runs) possible loud
      | andAnd =>
          refine ended (fun status => status = 0) rfl ?_ ⟨0, rfl⟩ loud
          rintro s status rfl -
          rfl
      | orOr =>
          refine ended (fun status => status ≠ 0) rfl ?_ ⟨1, rfl⟩ loud
          rintro s status rfl -
          rfl
      | pipe | amp => exact ih loud flag possible

/-! ## Pieces and comments -/

/-- What follows a text belongs to its last piece, up to the next cut. -/
theorem pieces_append (A : Text) : ∃ before last, pieces A = before ++ [last] ∧
    ∀ (c : Char) (B : Text), c ≠ '&' →
      pieces (A ++ c :: B) = before ++ extend last (pieces (c :: B)) := by
  -- A text in front of the first piece.
  have longer : ∀ (text : Text) (before : List Text) (last : Text), ∃ before' last',
      extend text (before ++ [last]) = before' ++ [last'] ∧ ∀ list, list ≠ [] →
        extend text (before ++ extend last list) = before' ++ extend last' list := by
    intro text before last
    cases before with
    | nil =>
        refine ⟨[], text ++ last, rfl, fun list nonempty => ?_⟩
        exact extend_extend text last nonempty
    | cons piece before => exact ⟨(text ++ piece) :: before, last, rfl, fun _ _ => rfl⟩
  induction A using pieces_induction with
  | nil =>
      refine ⟨[], [], rfl, fun c B _ => ?_⟩
      exact (extend_nil (pieces_ne_nil _)).symm
  | pair text ih =>
      obtain ⟨before, last, whole, follows⟩ := ih
      obtain ⟨before', last', first, later⟩ := longer ['&', '&'] before last
      refine ⟨before', last', ?_, fun c B other => ?_⟩
      · rw [pieces_pair, whole, first]
      · rw [List.cons_append, List.cons_append, pieces_pair, follows c B other,
          later _ (pieces_ne_nil _)]
  | single text single ih =>
      obtain ⟨before, last, whole, follows⟩ := ih
      refine ⟨[] :: before, last, ?_, fun c B other => ?_⟩
      · rw [pieces_single single, whole]
        rfl
      · have alone : (text ++ c :: B).head? ≠ some '&' := mt (head?_append_cons other.symm).mp single
        rw [List.cons_append, pieces_single alone, follows c B other]
        rfl
  | other d text different ih =>
      obtain ⟨before, last, whole, follows⟩ := ih
      obtain ⟨before', last', first, later⟩ := longer [d] before last
      refine ⟨before', last', ?_, fun c B other => ?_⟩
      · rw [pieces_other different, whole, first]
      · rw [List.cons_append, pieces_other different, follows c B other,
          later _ (pieces_ne_nil _)]

/-- The last piece of a line, which the shell runs itself. -/
def lastPiece (line : Text) : Text := (pieces line).getLast (pieces_ne_nil line)

/-- The pieces of a line with a comment. -/
theorem pieces_comment (A B : Text) : ∃ before, pieces A = before ++ [lastPiece A] ∧
    ∀ first rest, pieces B = first :: rest →
      pieces (A ++ '#' :: B) = before ++ (lastPiece A ++ '#' :: first) :: rest := by
  obtain ⟨before, last, whole, follows⟩ := pieces_append A
  have same : lastPiece A = last := by
    rw [lastPiece]
    simp only [whole, List.getLast_append_singleton]
  refine ⟨before, by rw [same, whole], fun first rest split => ?_⟩
  rw [follows '#' B (by decide), pieces_other (by decide), split, same]
  rfl

section Running

variable (env : ShellEnv W)

/-- Pieces that are followed by others run in the background, unless a `fork` fails. -/
theorem runPieces_append (before : List Text) (s : State W) (jobs : List (Job W)) :
    (∃ outcome, ∀ rest, rest ≠ [] → runPieces env s jobs (before ++ rest) = outcome) ∨
      ∃ s' jobs', ∀ rest, rest ≠ [] →
        runPieces env s jobs (before ++ rest) = runPieces env s' jobs' rest := by
  induction before generalizing s jobs with
  | nil => exact .inr ⟨s, jobs, fun _ _ => rfl⟩
  | cons piece before ih =>
      have step : ∀ rest, rest ≠ [] → runPieces env s jobs (piece :: before ++ rest) =
          if !env.canFork s.os.world then ⟨jobs, .error (.exited 1 s)⟩
          else runPieces env (s.started env piece) (jobs ++ [⟨s, piece⟩]) (before ++ rest) := by
        intro rest nonempty
        have more : before ++ rest ≠ [] := by simp [nonempty]
        rw [List.cons_append]
        cases others : before ++ rest with
        | nil => exact absurd others more
        | cons next later => rw [runPieces]
      by_cases fails : (!env.canFork s.os.world) = true
      · refine .inl ⟨⟨jobs, .error (.exited 1 s)⟩, fun rest nonempty => ?_⟩
        rw [step rest nonempty, if_pos fails]
      · refine (ih (s.started env piece) (jobs ++ [⟨s, piece⟩])).imp ?_ ?_
        · rintro ⟨outcome, same⟩
          refine ⟨outcome, fun rest nonempty => ?_⟩
          rw [step rest nonempty, if_neg fails, same rest nonempty]
        · rintro ⟨s', jobs', same⟩
          refine ⟨s', jobs', fun rest nonempty => ?_⟩
          rw [step rest nonempty, if_neg fails, same rest nonempty]

theorem Job.events_silent {job : Job W} (quiet : silent job.line = true) :
    job.events env.toEnv = [] := by
  have same := processCommand_silent env.toEnv quiet job.state
  have log : (job.run env.toEnv).log = job.state.os.log := by
    rw [← same, Job.run]
    cases processCommand env.toEnv job.state job.line <;> rfl
  rw [Job.events, log, List.drop_length]

/-- Silent pieces record nothing, wherever they run. -/
theorem runPieces_silent {list : List Text} (quiet : ∀ piece ∈ list, silent piece = true)
    (s : State W) (jobs : List (Job W)) :
    (runPieces env s jobs list).foreground = s.os.log ∧
      (runPieces env s jobs list).background env.toEnv = jobs.flatMap (Job.events env.toEnv) := by
  induction list generalizing s jobs with
  | nil => exact ⟨rfl, rfl⟩
  | cons piece list ih =>
      have here := quiet piece List.mem_cons_self
      cases list with
      | nil => exact ⟨processCommand_silent env.toEnv here s, rfl⟩
      | cons next rest =>
          have later := ih (fun piece member => quiet piece (List.mem_cons_of_mem _ member))
            (s.started env piece) (jobs ++ [⟨s, piece⟩])
          rw [runPieces]
          split
          · exact ⟨rfl, rfl⟩
          · refine ⟨later.1, later.2.trans ?_⟩
            have nothing : (Job.mk s piece).events env.toEnv = [] := Job.events_silent env here
            rw [List.flatMap_append, List.flatMap_singleton, nothing, List.append_nil]

end Running

/-! ## When a comment is inert -/

/-- A world without state, in which every call succeeds. -/
def plainShell : ShellEnv Unit where
  openFile _ _ _ _ := (true, ())
  getcwdmode _ := 0
  chdir _ _ := (0, ())
  printStatus _ _ _ := ()
  canFork _ := true
  canPipe _ := true
  runChild _ _ _ := (0, ())
  startChild _ _ _ := ()
  background _ _ := ()

/-- In the plain world every piece starts in the same state. -/
theorem runPieces_plain (s : State Unit) (jobs : List (Job Unit)) {list : List Text}
    (nonempty : list ≠ []) :
    runPieces plainShell s jobs list = ⟨jobs ++ list.dropLast.map (Job.mk s),
      processCommand plainShell.toEnv s (list.getLast nonempty)⟩ := by
  induction list generalizing jobs with
  | nil => exact absurd rfl nonempty
  | cons piece list ih =>
      cases list with
      | nil => simp [runPieces]
      | cons next rest =>
          have step : runPieces plainShell s jobs (piece :: next :: rest) =
              runPieces plainShell s (jobs ++ [⟨s, piece⟩]) (next :: rest) := rfl
          rw [step, ih _ (List.cons_ne_nil next rest)]
          simp

/-- A line that never records anything in the plain world is silent. -/
theorem silent_of_log {line : Text}
    (quiet : ∀ s : State Unit, (resultLog (processCommand plainShell.toEnv s line)).length ≤
      s.os.log.length) : silent line = true := by
  by_contra loud
  obtain ⟨status, records⟩ := @runTokens_records Unit plainShell.toEnv (fun _ => rfl)
    (tokens line) [] (by simpa [silent] using loud) (fun _ => true) ⟨0, rfl⟩
  have recorded := records (State.start ⟨⟨(), [], 0, []⟩, status, (none, none), true⟩) rfl rfl
  have nothing := quiet ⟨⟨(), [], 0, []⟩, status, (none, none), true⟩
  rw [processCommand_eq] at nothing
  exact absurd recorded (not_lt.mpr nothing)

theorem Job.events_length {env : Env W} {job : Job W} (nothing : job.events env = []) :
    (resultLog (processCommand env job.state job.line)).length ≤ job.state.os.log.length := by
  have log : (job.run env).log = resultLog (processCommand env job.state job.line) := by
    rw [Job.run]
    cases processCommand env job.state job.line <;> rfl
  rw [Job.events, log] at nothing
  exact List.drop_eq_nil_iff.mp nothing

theorem silent_comment (A B : Text) : silent (A ++ '#' :: B) = silent A := by
  rw [silent, silent, tokens_comment]

/-- What an inert comment with a cut in it means in the plain world. -/
theorem Inert.nothing_to_run {A B : Text} (inert : Inert A B) (cleanA : nul ∉ A) (cleanB : nul ∉ B)
    {first second : Text} {rest : List Text} (split : pieces B = first :: second :: rest) :
    silent (lastPiece A) = true ∧ ∀ piece ∈ second :: rest, silent piece = true := by
  obtain ⟨before, whole, follows⟩ := pieces_comment A B
  have cleanBoth : nul ∉ A ++ '#' :: B := by
    simp only [List.mem_append, List.mem_cons, not_or]
    exact ⟨cleanA, by decide, cleanB⟩
  have later : second :: rest ≠ [] := List.cons_ne_nil second rest
  have lineA : ∀ s, process plainShell s A = ⟨before.map (Job.mk s),
      processCommand plainShell.toEnv s (lastPiece A)⟩ := by
    intro s
    rw [process_eq plainShell s cleanA, whole, runPieces_plain s [] (by simp)]
    simp
  have lineAB : ∀ s, process plainShell s (A ++ '#' :: B) =
      ⟨before.map (Job.mk s) ++
          ((lastPiece A ++ '#' :: first) :: (second :: rest).dropLast).map (Job.mk s),
        processCommand plainShell.toEnv s ((second :: rest).getLast later)⟩ := by
    intro s
    rw [process_eq plainShell s cleanBoth, follows first _ split, runPieces_plain s [] (by simp)]
    simp
  have background : ∀ piece ∈ (lastPiece A ++ '#' :: first) :: (second :: rest).dropLast,
      silent piece = true := by
    intro piece member
    apply silent_of_log
    intro s
    obtain ⟨-, same⟩ := inert Unit plainShell s
    rw [lineA, lineAB, Outcome.background, Outcome.background, List.flatMap_append,
      List.append_right_eq_self, List.flatMap_eq_nil_iff] at same
    have short := Job.events_length (same _ (List.mem_map_of_mem member))
    exact short
  have last : silent (lastPiece A) = true := by
    rw [← silent_comment (lastPiece A) first]
    exact background _ List.mem_cons_self
  refine ⟨last, fun piece member => ?_⟩
  rw [← List.dropLast_append_getLast later] at member
  rcases List.mem_append.mp member with earlier | final
  · exact background piece (List.mem_cons_of_mem _ earlier)
  · rw [List.mem_singleton.mp final]
    apply silent_of_log
    intro s
    obtain ⟨same, -⟩ := inert Unit plainShell s
    rw [lineA, lineAB] at same
    exact le_of_eq (congrArg List.length (same.trans (processCommand_silent _ last s)))

/-- **Comments.** A comment is inert exactly when no `&` in it stands alone, or when there is
nothing to run in the last piece before the comment and in the pieces after the first such
`&`. -/
theorem inert_iff (A B : Text) (cleanA : nul ∉ A) (cleanB : nul ∉ B) :
    Inert A B ↔ (pieces B).length = 1 ∨
      silent (lastPiece A) = true ∧ ∀ piece ∈ (pieces B).tail, silent piece = true := by
  have cleanBoth : nul ∉ A ++ '#' :: B := by
    simp only [List.mem_append, List.mem_cons, not_or]
    exact ⟨cleanA, by decide, cleanB⟩
  cases split : pieces B with
  | nil => exact absurd split (pieces_ne_nil B)
  | cons first rest =>
      obtain ⟨before, whole, follows⟩ := pieces_comment A B
      have both := follows first rest split
      constructor
      · intro inert
        cases rest with
        | nil => exact .inl rfl
        | cons second rest => exact .inr (inert.nothing_to_run cleanA cleanB split)
      · intro idle W env s
        rw [process_eq env s cleanA, process_eq env s cleanBoth, whole, both]
        rcases runPieces_append env before s [] with ⟨outcome, same⟩ | ⟨s', jobs', same⟩
        · rw [same _ (List.cons_ne_nil _ _), same _ (List.cons_ne_nil _ _)]
          exact ⟨rfl, rfl⟩
        · rw [same _ (List.cons_ne_nil _ _), same _ (List.cons_ne_nil _ _)]
          rcases idle with single | ⟨last, others⟩
          · obtain rfl : rest = [] := by simpa using single
            rw [runPieces, runPieces, processCommand_comment]
            exact ⟨rfl, rfl⟩
          · have quietA : ∀ piece ∈ [lastPiece A], silent piece = true := by
              intro piece member
              rw [List.mem_singleton.mp member, last]
            have quietB : ∀ piece ∈ (lastPiece A ++ '#' :: first) :: rest, silent piece = true := by
              intro piece member
              rcases List.mem_cons.mp member with rfl | later
              · rw [silent_comment, last]
              · exact others piece later
            obtain ⟨foreground, background⟩ := runPieces_silent env quietA s' jobs'
            obtain ⟨foreground', background'⟩ := runPieces_silent env quietB s' jobs'
            exact ⟨foreground'.trans foreground.symm, background'.trans background.symm⟩

theorem inert_of_pairs : Inert "ls &".toList " a && b".toList := by
  have condition : (pieces " a && b".toList).length = 1 := rfl
  exact (inert_iff _ _ (by decide +kernel) (by decide +kernel)).mpr (.inl condition)

/-- `ls # a & status` runs `ls` in the background, and `status` as a command. -/
theorem comment_with_amp_runs :
    ¬ ∀ (A B : Text), '#' ∉ A → nul ∉ A → nul ∉ B → Inert A B := by
  intro law
  have inert := law "ls ".toList " a & status".toList (by decide) (by decide +kernel)
    (by decide)
  obtain ⟨foreground, -⟩ := inert _ sampleShell sampleState
  revert foreground
  decide +kernel

end OsTasks.Shell
