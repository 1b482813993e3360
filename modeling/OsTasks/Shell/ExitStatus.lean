import OsTasks.Lib.Machine
import OsTasks.Shell.Process
import OsTasks.Shell.Skipped

/-!
# The exit status of the shell

When the shell ends, at the end of its input or with the builtin `exit`, it exits with `error`.
Its parent should find 0 there exactly when the last command that the shell executed has
succeeded (`ReportsLast`).

The variable holds what the last command left there (`processLines_tracks`): the value that a
builtin returned, or the status that `waitpid` stored. That status has the exit code in its
bits 8 to 15, and of the value passed to `exit` the parent sees the bits 0 to 7. So a command
that exits with a code other than 0 is reported as a success. `reportsLast_iff` says that this
is the only way in which the report goes wrong.
-/

set_option autoImplicit false

namespace OsTasks.Shell

open OsTasks.Lib

variable {W : Type}

/-! ## Statuses -/

/-- How a command has ended: a builtin with the value it returned, any other command with the
status of `waitpid`. -/
inductive Ended where
  | builtin (value : Int)
  | external (status : Int)
  deriving DecidableEq, Repr

namespace Ended

/-- What is stored in `error`. -/
def value : Ended → Int
  | .builtin value => value
  | .external status => status

/-- `WIFEXITED`: the process has ended with `exit`. -/
def exited (status : Int) : Bool := status % 128 = 0

/-- `WEXITSTATUS` -/
def exitCode (status : Int) : Int := status / 256 % 256

/-- The command has succeeded. -/
def Succeeded : Ended → Prop
  | .builtin value => value = 0
  | .external status => exited status = true ∧ exitCode status = 0

/-- A command that is not a builtin one has ended with an exit code other than 0. -/
def FailedWithCode : Ended → Prop
  | .builtin _ => False
  | .external status => exited status = true ∧ exitCode status ≠ 0

end Ended

/-- What `waitpid` stores for a process that has ended: the exit code in the bits 8 to 15, or the
number of the signal that has killed it, with a bit for a core dump. -/
def WaitStatus (status : Int) : Prop :=
  (∃ code : Nat, code < 256 ∧ status = code * 256) ∨
    ∃ signal : Nat, 0 < signal ∧ signal < 127 ∧ (status = signal ∨ status = signal + 128)

/-- What the shell relies on: the statuses of `waitpid`, and the return value of `chdir`. -/
structure PosixStatuses (env : Env W) : Prop where
  runChild : ∀ world argv fds, WaitStatus (env.runChild world argv fds).1
  chdir : ∀ world directory, (env.chdir world directory).1 = 0 ∨ (env.chdir world directory).1 = -1

/-- What the parent of a process that calls `exit(status)` sees. -/
def exitStatus (status : Int) : Int := status % 256

/-! ## The commands that are executed -/

variable (env : Env W)

/-- The value that a builtin returns. `exit` does not return. -/
def builtinEnded (s : State W) (args : List Text) : Builtin → Option Ended
  | .cd => some (.builtin (builtinCd env s.os.world args).1)
  | .exit => none
  | .status => some (.builtin 0)

/-- How the command ends that `run_command` executes, if it executes one that returns. -/
def commandEnded (s : State W) (args : List Text) : Option Ended :=
  if args = [] ∨ s.conditionalRun = false then none
  else
    match findBuiltin args with
    | some b => builtinEnded env s args b
    | none => some (.external (env.runChild s.os.world args s.os.fds).1)

/-- How the commands of a line end, in the order in which they are executed. -/
def tokensEnded (s : State W) (args : List Text) : List Token → List Ended
  | [] => (commandEnded env s args).toList
  | token :: rest =>
      (if token.ends then (commandEnded env s args).toList else []) ++
        match tokenStep env (s, args) token with
        | .ok (s, args) => tokensEnded s args rest
        | .error _ => []

/-- The commands that the shell itself executes for the pieces of a line. -/
def piecesEnded (env : ShellEnv W) (s : State W) : List Text → List Ended
  | [] => []
  | [piece] => tokensEnded env.toEnv s.start [] (tokens piece)
  | piece :: next :: rest =>
      if !env.canFork s.os.world then [] else piecesEnded env (s.started env piece) (next :: rest)

/-- The commands that the shell itself executes for lines. -/
def linesEnded (env : ShellEnv W) (s : State W) : List Text → List Ended
  | [] => []
  | line :: lines =>
      piecesEnded env s (pieces line) ++
        match (process env s line).result with
        | .ok s => linesEnded env s lines
        | .error _ => []

/-! ## What `error` holds -/

/-- The value that the last command left in `error`, which is 0 at first. -/
def lastValue (ran : List Ended) : Int := (ran.getLast?.map Ended.value).getD 0

theorem lastValue_append (ran : List Ended) (last : Option Ended) :
    lastValue (ran ++ last.toList) = (last.map Ended.value).getD (lastValue ran) := by
  cases last with
  | none => rw [Option.toList_none, List.append_nil]; rfl
  | some ended => simp [lastValue]

/-- The last thing that the log records is a call of the builtin `exit`. -/
def ExitCalled (s : State W) : Prop :=
  ∃ argv fds, s.os.log.getLast? = some (.builtin argv fds) ∧ findBuiltin argv = some .exit

/-- The invariant: `error` is what the last command left there, and `exit` has not been called. -/
structure Tracks (s : State W) (ran : List Ended) : Prop where
  error : s.error = lastValue ran
  running : ¬ ExitCalled s

/-- A process that stops by a call of `exit` exits with the value of the last command. -/
def ExitsWith (ran : List Ended) (stop : Stop W) : Prop :=
  ∀ status s, stop = .exited status s → ExitCalled s → status = lastValue ran

theorem Tracks.of_eq {s s' : State W} {ran : List Ended} (tracks : Tracks s ran)
    (error : s'.error = s.error) (log : s'.os.log = s.os.log) : Tracks s' ran where
  error := error.trans tracks.error
  running := by
    rintro ⟨argv, fds, last, found⟩
    exact tracks.running ⟨argv, fds, log ▸ last, found⟩

theorem not_exitCalled_record {s : State W} {log : List Event} {event : Event}
    (recorded : s.os.log = log ++ [event])
    (other : ∀ argv fds, event = .builtin argv fds → findBuiltin argv ≠ some .exit) :
    ¬ ExitCalled s := by
  rintro ⟨argv, fds, last, found⟩
  rw [recorded, List.getLast?_append_of_ne_nil _ (List.cons_ne_nil _ _)] at last
  exact other argv fds (Option.some.inj last) found

theorem Tracks.ended {s : State W} {ran : List Ended} {ended : Ended} (error : s.error = ended.value)
    (running : ¬ ExitCalled s) : Tracks s (ran ++ [ended]) where
  error := by
    rw [error]
    exact (lastValue_append ran (some ended)).symm
  running := running

theorem callBuiltin_tracks {s : State W} {ran : List Ended} (tracks : Tracks s ran)
    {args : List Text} {b : Builtin} (found : findBuiltin args = some b) :
    Meets (callBuiltin env (s.setOs fun os => os.record (.builtin args os.fds)) args b)
      (ExitsWith (ran ++ (builtinEnded env s args b).toList))
      fun s' => Tracks s' (ran ++ (builtinEnded env s args b).toList) := by
  have running : b ≠ .exit → ∀ argv fds, Event.builtin args s.os.fds = .builtin argv fds →
      findBuiltin argv ≠ some .exit := by
    intro other argv fds same
    cases same
    rw [found]
    exact fun exit => other (Option.some.inj exit)
  cases b with
  | cd => exact Tracks.ended rfl (not_exitCalled_record rfl (running (by decide)))
  | exit =>
      intro status s' stopped _
      cases stopped
      rw [builtinEnded, Option.toList_none, List.append_nil]
      exact tracks.error
  | status => exact Tracks.ended rfl (not_exitCalled_record rfl (running (by decide)))

/-- The end of a command leaves its value in `error`. -/
theorem finish_tracks {s : State W} {ran : List Ended} (tracks : Tracks s ran) (args : List Text) :
    Meets (finish env s args) (ExitsWith (ran ++ (commandEnded env s args).toList))
      fun s' => Tracks s' (ran ++ (commandEnded env s args).toList) := by
  rw [commandEnded]
  by_cases skipped : args = [] ∨ s.conditionalRun = false
  · rw [finish_skipped env skipped, if_pos skipped, Option.toList_none, List.append_nil]
    exact tracks.of_eq (restoreStd_error s) (restoreStd_log s)
  · rw [if_neg skipped]
    cases found : findBuiltin args with
    | some b =>
        rw [finish_builtin env skipped found]
        refine Meets.map ((callBuiltin_tracks env tracks found).imp fun s' tracks' => ?_)
        exact tracks'.of_eq (restoreStd_error s') (restoreStd_log s')
    | none =>
        rw [finish_external env skipped found, forkCommand]
        refine Meets.ite (fun _ => ?_) fun _ => ?_
        · intro status s' stopped called
          cases stopped
          exact absurd called tracks.running
        · refine Tracks.ended ?_ (not_exitCalled_record rfl ?_)
          · dsimp only
            rw [restoreStd_world]
            rfl
          · intro argv fds same
            cases same

theorem redirectToken_tracks {s : State W} {ran : List Ended} (tracks : Tracks s ran)
    (args : List Text) (write : Bool) (file : Text) :
    Tracks (redirectToken env s args write file).1 ran := by
  obtain ⟨fd, log, -, error⟩ := redirectToken_log env s args write file
  refine ⟨error.trans tracks.error, not_exitCalled_record log ?_⟩
  intro argv fds same
  cases same

/-- One token, with the command that it ends. -/
theorem tokenStep_tracks {s : State W} {ran : List Ended} (tracks : Tracks s ran) (args : List Text)
    (token : Token) :
    Meets (tokenStep env (s, args) token)
      (ExitsWith (ran ++ if token.ends then (commandEnded env s args).toList else []))
      fun next => Tracks next.1
        (ran ++ if token.ends then (commandEnded env s args).toList else []) := by
  have ended : ∀ {change : State W → State W}, token.operator = some change →
      Meets (tokenStep env (s, args) token) (ExitsWith (ran ++ (commandEnded env s args).toList))
        fun next => Tracks next.1 (ran ++ (commandEnded env s args).toList) := by
    intro change operator
    rw [tokenStep_operator env operator]
    refine Meets.map ((finish_tracks env tracks args).imp fun s' tracks' => ?_)
    obtain ⟨os, error, -⟩ := Token.operator_same operator s'
    exact tracks'.of_eq error (congrArg Os.log os)
  have other : Tracks s (ran ++ []) := by rwa [List.append_nil]
  have faults : ExitsWith (ran ++ []) (Stop.fault s) := by
    intro status s' stopped
    cases stopped
  cases token with
  | word text => exact Meets.ite (fun _ => other) fun _ => faults
  | redirect write file =>
      have kept := redirectToken_tracks env tracks args write file
      rw [← List.append_nil ran] at kept
      exact Meets.ok kept
  | noFile => exact faults
  | semi | andAnd | orOr => exact ended rfl
  | pipe | amp => exact Meets.ok other

theorem runTokens_tracks {s : State W} {ran : List Ended} (tracks : Tracks s ran)
    (args : List Text) (toks : List Token) :
    Meets (runTokens env s args toks) (ExitsWith (ran ++ tokensEnded env s args toks))
      fun s' => Tracks s' (ran ++ tokensEnded env s args toks) := by
  induction toks generalizing s ran args with
  | nil => exact finish_tracks env tracks args
  | cons token toks ih =>
      have step := tokenStep_tracks env tracks args token
      rw [runTokens, tokensEnded]
      cases stepped : tokenStep env (s, args) token with
      | error stop =>
          rw [stepped] at step
          rw [List.append_nil]
          exact step
      | ok next =>
          rw [stepped] at step
          rw [← List.append_assoc]
          exact ih step next.2

theorem processCommand_tracks {s : State W} {ran : List Ended} (tracks : Tracks s ran)
    (line : Text) :
    Meets (processCommand env s line) (ExitsWith (ran ++ tokensEnded env s.start [] (tokens line)))
      fun s' => Tracks s' (ran ++ tokensEnded env s.start [] (tokens line)) := by
  have started : Tracks s.start ran := tracks.of_eq rfl rfl
  rw [processCommand_eq]
  exact runTokens_tracks env started [] (tokens line)

/-- A line, of which the shell itself runs the last piece. -/
theorem runPieces_tracks (env : ShellEnv W) {s : State W} {ran : List Ended} (tracks : Tracks s ran)
    (jobs : List (Job W)) (list : List Text) :
    Meets (runPieces env s jobs list).result (ExitsWith (ran ++ piecesEnded env s list))
      fun s' => Tracks s' (ran ++ piecesEnded env s list) := by
  induction list generalizing s jobs with
  | nil =>
      rw [piecesEnded, List.append_nil]
      exact Meets.ok tracks
  | cons piece list ih =>
      cases list with
      | nil => exact processCommand_tracks env.toEnv tracks piece
      | cons next rest =>
          rw [runPieces, piecesEnded]
          split
          · intro status s' stopped called
            cases stopped
            exact absurd called tracks.running
          · have started : Tracks (s.started env piece) ran := tracks.of_eq rfl rfl
            exact ih started _

/-- After any lines, `error` holds what the last command left there. -/
theorem processLines_tracks (env : ShellEnv W) {s : State W} {ran : List Ended}
    (tracks : Tracks s ran) {lines : List Text} (clean : ∀ line ∈ lines, nul ∉ line) :
    Meets (processLines env s lines).result (ExitsWith (ran ++ linesEnded env s lines))
      fun s' => Tracks s' (ran ++ linesEnded env s lines) := by
  induction lines generalizing s ran with
  | nil =>
      rw [linesEnded, List.append_nil]
      exact Meets.ok tracks
  | cons line lines ih =>
      have later := fun {s} {ran} (tracks : Tracks s ran) => ih tracks fun line member =>
        clean line (List.mem_cons_of_mem _ member)
      have first := runPieces_tracks env tracks [] (pieces line)
      rw [← process_eq env s (clean line List.mem_cons_self)] at first
      rw [processLines, linesEnded]
      cases outcome : process env s line with
      | mk jobs result =>
          rw [outcome] at first
          cases result with
          | error stop =>
              rw [List.append_nil]
              exact first
          | ok s' =>
              rw [← List.append_assoc]
              exact later first

/-! ## What is reported -/

/-- The shell ends with `status`, at the end of its input or by the builtin `exit`. -/
def EndsWith (env : ShellEnv W) (os : Os W) (lines : List Text) (status : Int) : Prop :=
  ∃ s, main env os lines = .exited status s ∧
    ((processLines env (.initial os) lines).result = .ok s ∨ ExitCalled s)

/-- The parent of the shell finds 0 exactly when the last command has succeeded. -/
def ReportsLast (ran : List Ended) (status : Int) : Prop :=
  exitStatus status = 0 ↔ ∀ last ∈ ran.getLast?, last.Succeeded

theorem endsWith_lastValue {env : ShellEnv W} {os : Os W} (fresh : os.log = [])
    {lines : List Text} (clean : ∀ line ∈ lines, nul ∉ line) {status : Int}
    (ends : EndsWith env os lines status) :
    status = lastValue (linesEnded env (.initial os) lines) := by
  have start : Tracks (State.initial os) [] := by
    refine ⟨rfl, ?_⟩
    rintro ⟨argv, fds, last, -⟩
    have empty : (State.initial os).os.log = [] := fresh
    rw [empty] at last
    cases last
  have run := processLines_tracks env start clean
  rw [List.nil_append] at run
  obtain ⟨s, stopped, how⟩ := ends
  rw [main] at stopped
  cases result : (processLines env (.initial os) lines).result with
  | ok s' =>
      rw [result] at stopped run
      cases stopped
      exact run.error
  | error stop =>
      rw [result] at stopped run how
      have called := how.resolve_left (by intro same; cases same)
      exact run status s stopped called

/-- The statuses of builtin commands, and of other commands, that can occur. -/
def Ended.Possible : Ended → Prop
  | .builtin value => value = 0 ∨ value = 1 ∨ value = -1
  | .external status => WaitStatus status

theorem commandEnded_possible {env : Env W} (posix : PosixStatuses env) {s : State W}
    {args : List Text} {ended : Ended} (found : commandEnded env s args = some ended) :
    ended.Possible := by
  rw [commandEnded] at found
  split at found
  · cases found
  · split at found
    · next b _ =>
        cases b with
        | cd =>
            cases found
            change (builtinCd env s.os.world args).1 = 0 ∨ _
            unfold builtinCd
            split
            · exact (posix.chdir _ _).imp_right .inr
            · exact .inr (.inl rfl)
        | exit => cases found
        | status =>
            cases found
            exact .inl rfl
    · cases found
      exact posix.runChild _ _ _

theorem tokensEnded_possible {env : Env W} (posix : PosixStatuses env) {toks : List Token}
    {s : State W} {args : List Text} {ended : Ended} (member : ended ∈ tokensEnded env s args toks) :
    ended.Possible := by
  have here : ∀ {s : State W} {args : List Text}, ended ∈ (commandEnded env s args).toList →
      ended.Possible := by
    intro s args member
    exact commandEnded_possible posix (Option.mem_toList.mp member)
  induction toks generalizing s args with
  | nil => exact here member
  | cons token toks ih =>
      rw [tokensEnded] at member
      rcases List.mem_append.mp member with first | later
      · split at first
        · exact here first
        · cases first
      · split at later
        · exact ih later
        · cases later

theorem linesEnded_possible {env : ShellEnv W} (posix : PosixStatuses env.toEnv)
    {lines : List Text} {s : State W} {ended : Ended} (member : ended ∈ linesEnded env s lines) :
    ended.Possible := by
  have pieces_possible : ∀ {list : List Text} {s : State W}, ended ∈ piecesEnded env s list →
      ended.Possible := by
    intro list
    induction list with
    | nil =>
        intro s member
        cases member
    | cons piece list ih =>
        intro s member
        cases list with
        | nil => exact tokensEnded_possible posix member
        | cons next rest =>
            rw [piecesEnded] at member
            split at member
            · cases member
            · exact ih member
  induction lines generalizing s with
  | nil => cases member
  | cons line lines ih =>
      rw [linesEnded] at member
      rcases List.mem_append.mp member with first | later
      · exact pieces_possible first
      · split at later
        · exact ih later
        · cases later

/-- One command: of its value the parent sees the right thing, unless it is an exit code. -/
theorem Ended.reported {last : Ended} (possible : last.Possible) :
    (exitStatus last.value = 0 ↔ last.Succeeded) ↔ ¬ last.FailedWithCode := by
  cases last with
  | builtin value =>
      simp only [Ended.value, Succeeded, FailedWithCode, exitStatus, not_false_iff, iff_true]
      rcases possible with rfl | rfl | rfl <;> decide
  | external status =>
      simp only [Ended.value, Succeeded, FailedWithCode, exitStatus, exited, exitCode,
        decide_eq_true_eq]
      rcases possible with ⟨code, small, rfl⟩ | ⟨signal, positive, small, rfl | rfl⟩
      · constructor <;> intro <;> omega
      · constructor <;> intro <;> omega
      · constructor <;> intro <;> omega

/-- **Exit status.** When the shell ends, at the end of its input or by `exit`, it reports the
success of the last command unless that is a command that has ended with an exit code other
than 0. -/
theorem reportsLast_iff (env : ShellEnv W) (posix : PosixStatuses env.toEnv) (os : Os W)
    (fresh : os.log = []) (lines : List Text) (clean : ∀ line ∈ lines, nul ∉ line) (status : Int)
    (ends : EndsWith env os lines status) :
    ReportsLast (linesEnded env (.initial os) lines) status ↔
      ∀ last ∈ (linesEnded env (.initial os) lines).getLast?, ¬ last.FailedWithCode := by
  have value := endsWith_lastValue fresh clean ends
  have possible := fun ended => @linesEnded_possible W env posix lines (.initial os) ended
  generalize linesEnded env (.initial os) lines = ran at value possible ⊢
  unfold ReportsLast
  cases last : ran.getLast? with
  | none =>
      have zero : status = 0 := by rw [value, lastValue, last]; rfl
      simp [zero, exitStatus]
  | some ended =>
      have stored : status = ended.value := by rw [value, lastValue, last]; rfl
      have reported := Ended.reported (possible ended (List.mem_of_getLast? last))
      simpa [stored] using reported

theorem sampleShell_posix : PosixStatuses sampleShell.toEnv where
  runChild world argv fds := by
    change WaitStatus (if _ then 256 else 0)
    split
    · exact .inl ⟨1, by decide, rfl⟩
    · exact .inl ⟨0, by decide, rfl⟩
  chdir world directory := .inl rfl

/-- `false || cd /` succeeds. -/
theorem reportsLast_cd :
    let lines := ["false || cd /\n".toList, "exit\n".toList]
    EndsWith sampleShell sampleState.os lines 0 ∧
      ReportsLast (linesEnded sampleShell (.initial sampleState.os) lines) 0 := by
  have ran : linesEnded sampleShell (.initial sampleState.os)
      ["false || cd /\n".toList, "exit\n".toList] = [.external 256, .builtin 0] := by decide
  have ends : EndsWith sampleShell sampleState.os ["false || cd /\n".toList, "exit\n".toList] 0 := by
    refine ⟨_, rfl, .inr ⟨["exit".toList], _, rfl, by decide⟩⟩
  refine ⟨ends, (reportsLast_iff sampleShell sampleShell_posix sampleState.os rfl _ ?_ 0 ends).mpr ?_⟩
  · decide
  · rw [ran]
    rintro last ⟨⟩ failed
    exact failed

/-- After `false` the shell exits with the wait status 256, and its parent finds 0. -/
theorem false_reported_as_success :
    ¬ ∀ (lines : List Text) (status : Int), EndsWith sampleShell sampleState.os lines status →
      ReportsLast (linesEnded sampleShell (.initial sampleState.os) lines) status := by
  intro law
  have ran : linesEnded sampleShell (.initial sampleState.os) ["false\n".toList] =
      [.external 256] := by decide
  have reports := law ["false\n".toList] 256 ⟨_, rfl, .inl rfl⟩
  rw [ran] at reports
  obtain ⟨-, code⟩ := reports.mp (by decide) (.external 256) rfl
  revert code
  decide

end OsTasks.Shell
