import OsTasks.Lib.Machine
import OsTasks.Shell.Tokens

/-!
# Facts about the execution of tokens

After every command the standard streams are the saved ones again (`State.Std`), and tokens
are executed one part after the other (`runTokens_operator`, `runTokens_words`). The flag
`conditional_run` can be observed only through the commands it skips (`observed`).
-/

set_option autoImplicit false

namespace OsTasks.Shell

open OsTasks.Lib

variable {W : Type}

/-! ## The standard streams -/

/-- The saved streams are the standard ones. -/
def State.Std (s : State W) : Prop := s.inout = (some stdinFileno, some stdoutFileno)

theorem restoreStd_of_std {s : State W} (std : s.Std) :
    s.restoreStd = s := by
  rw [State.restoreStd, State.restoreStdout]
  have saved : s.inout = (some stdinFileno, some stdoutFileno) := std
  rw [saved]
  simp [State.restoreStdin, saved]

/-- Nothing but descriptors changes. -/
theorem restoreStd_eq (s : State W) : ∃ fds, s.restoreStd =
    { s with os := s.os.setFds fds, inout := (some stdinFileno, some stdoutFileno) } := by
  have out : ∃ fds, s.restoreStdout =
      { s with os := s.os.setFds fds, inout := (s.inout.1, some stdoutFileno) } := by
    rw [State.restoreStdout]
    split
    · exact ⟨_, rfl⟩
    · next same =>
        refine ⟨s.os.fds, ?_⟩
        rw [← not_not.mp same]
        rfl
  obtain ⟨fds, restored⟩ := out
  rw [State.restoreStd, State.restoreStdin]
  rw [restored]
  split
  · exact ⟨_, rfl⟩
  · next same =>
      refine ⟨fds, ?_⟩
      rw [not_not.mp same]

theorem restoreStd_std (s : State W) : s.restoreStd.Std := by
  obtain ⟨fds, restored⟩ := restoreStd_eq s
  rw [restored]
  rfl

theorem restoreStd_log (s : State W) : s.restoreStd.os.log = s.os.log := by
  obtain ⟨fds, restored⟩ := restoreStd_eq s
  rw [restored]
  rfl

theorem restoreStd_world (s : State W) : s.restoreStd.os.world = s.os.world := by
  obtain ⟨fds, restored⟩ := restoreStd_eq s
  rw [restored]
  rfl

theorem restoreStd_error (s : State W) : s.restoreStd.error = s.error := by
  obtain ⟨fds, restored⟩ := restoreStd_eq s
  rw [restored]

theorem restoreStd_runs (s : State W) : s.restoreStd.conditionalRun = s.conditionalRun := by
  obtain ⟨fds, restored⟩ := restoreStd_eq s
  rw [restored]

variable (env : Env W)

/-! ## The end of a command -/

section Finish

variable {s : State W} {args : List Text}

/-- A command without words, or one that is skipped. -/
theorem finish_skipped (skipped : args = [] ∨ s.conditionalRun = false) :
    finish env s args = .ok s.restoreStd := by
  rw [finish, runCommand, runCommand2]
  rw [if_pos (by simpa using skipped)]
  rfl

theorem finish_builtin (runs : ¬ (args = [] ∨ s.conditionalRun = false)) {b : Builtin}
    (found : findBuiltin args = some b) :
    finish env s args =
      (callBuiltin env (s.setOs fun os => os.record (.builtin args os.fds)) args b).map
        State.restoreStd := by
  have called : runBuiltin env s args = some
      (callBuiltin env (s.setOs fun os => os.record (.builtin args os.fds)) args b) := by
    rw [runBuiltin, found]
    rfl
  rw [finish, runCommand, runCommand2]
  rw [if_neg (by simpa using runs), if_neg Bool.false_ne_true, called]
  cases callBuiltin env (s.setOs fun os => os.record (.builtin args os.fds)) args b <;> rfl

theorem finish_external (runs : ¬ (args = [] ∨ s.conditionalRun = false))
    (found : findBuiltin args = none) :
    finish env s args = forkCommand env s args none := by
  have other : runBuiltin env s args = none := by
    rw [runBuiltin, found]
    rfl
  rw [finish, runCommand, runCommand2]
  rw [if_neg (by simpa using runs), if_neg Bool.false_ne_true, other]
  cases forkCommand env s args none <;> rfl

theorem finish_skips (std : s.Std) (skips : s.conditionalRun = false) (args : List Text) :
    finish env s args = .ok s := by
  rw [finish_skipped env (.inr skips), restoreStd_of_std std]

theorem finish_nil (std : s.Std) : finish env s [] = .ok s := by
  rw [finish_skipped env (.inl rfl), restoreStd_of_std std]

theorem forkCommand_std {s' : State W} {argv : List Text}
    (forked : forkCommand env s argv none = .ok s') : s'.Std := by
  rw [forkCommand] at forked
  split at forked
  · cases forked
  · cases forked
    exact restoreStd_std _

theorem finish_std {s' : State W} (ended : finish env s args = .ok s') : s'.Std := by
  by_cases skipped : args = [] ∨ s.conditionalRun = false
  · rw [finish_skipped env skipped] at ended
    cases ended
    exact restoreStd_std s
  · cases found : findBuiltin args with
    | none =>
        rw [finish_external env skipped found] at ended
        exact forkCommand_std env ended
    | some b =>
        rw [finish_builtin env skipped found] at ended
        cases called :
            callBuiltin env (s.setOs fun os => os.record (.builtin args os.fds)) args b with
        | error stop =>
            rw [called] at ended
            cases ended
        | ok s₁ =>
            rw [called] at ended
            cases ended
            exact restoreStd_std s₁

end Finish

/-! ## What a command records -/

/-- The log when the shell stops. -/
def Stop.log : Stop W → List Event
  | .exited _ s => s.os.log
  | .fault s => s.os.log
  | .spin => []

/-- The log of the process, also when it has stopped. -/
def resultLog : Except (Stop W) (State W) → List Event
  | .ok s => s.os.log
  | .error stop => stop.log

/-- What is recorded of a command that is executed with these descriptors. -/
def executionEvents (fds : FdTable) (args : List Text) : List Event :=
  if (findBuiltin args).isSome then [.builtin args fds] else [.launch args fds, .wait]

theorem executionEvents_ne_nil (fds : FdTable) (args : List Text) :
    executionEvents fds args ≠ [] := by
  rw [executionEvents]
  split <;> exact List.cons_ne_nil _ _

theorem resultLog_restoreStd (result : Except (Stop W) (State W)) :
    resultLog (result.map State.restoreStd) = resultLog result := by
  cases result with
  | error stop => rfl
  | ok s => exact restoreStd_log s

theorem callBuiltin_log (s : State W) (argv : List Text) (b : Builtin) :
    resultLog (callBuiltin env s argv b) = s.os.log := by
  cases b <;> rfl

section Records

variable {s : State W} {args : List Text} (runs : ¬ (args = [] ∨ s.conditionalRun = false))

include runs

/-- A command that is not skipped is executed once, also when it ends the shell. -/
theorem finish_executed (forks : findBuiltin args = none → env.canFork s.os.world = true) :
    resultLog (finish env s args) = s.os.log ++ executionEvents s.os.fds args := by
  cases found : findBuiltin args with
  | none =>
      rw [finish_external env runs found, forkCommand, forks found, executionEvents, found]
      simp only [Bool.not_true, Bool.false_eq_true, if_false, resultLog, Os.record, restoreStd_log]
      simp only [State.setOs, childFds, List.append_assoc, List.singleton_append]
      rfl
  | some builtin =>
      rw [finish_builtin env runs found, resultLog_restoreStd, callBuiltin_log, executionEvents,
        found]
      rfl

/-- The shell ends where it has no child to run a command. -/
theorem finish_unforked (found : findBuiltin args = none)
    (stuck : env.canFork s.os.world = false) :
    finish env s args = .error (.exited 1 s) := by
  rw [finish_external env runs found, forkCommand, stuck]
  rfl

end Records

theorem runTokens_std {s s' : State W} {args : List Text} {toks : List Token}
    (ran : runTokens env s args toks = .ok s') : s'.Std := by
  induction toks generalizing s args with
  | nil => exact finish_std env ran
  | cons token toks ih =>
      obtain ⟨next, -, later⟩ := of_bind_ok ran
      exact ih later

/-! ## One part after the other -/

theorem stepTokens_append (state : State W × List Text) (X Y : List Token) :
    stepTokens env state (X ++ Y) =
      (stepTokens env state X).bind fun state => stepTokens env state Y := by
  induction X generalizing state with
  | nil => rfl
  | cons token X ih =>
      simp only [List.cons_append, stepTokens]
      cases tokenStep env state token with
      | error stop => rfl
      | ok next => exact ih next

theorem stepTokens_trans {state next last : State W × List Text} {X Y : List Token}
    (first : stepTokens env state X = .ok next) (second : stepTokens env next Y = .ok last) :
    stepTokens env state (X ++ Y) = .ok last := by
  rw [stepTokens_append, first]
  exact second

/-- The line goes on from where some of its tokens have led. -/
theorem runTokens_append {s : State W} {args : List Text} (X Y : List Token) :
    runTokens env s args (X ++ Y) =
      (stepTokens env (s, args) X).bind fun state => runTokens env state.1 state.2 Y := by
  induction X generalizing s args with
  | nil => rfl
  | cons token X ih =>
      simp only [List.cons_append, runTokens, stepTokens]
      cases tokenStep env (s, args) token with
      | error stop => rfl
      | ok next => exact ih

/-- Tokens are not executed past one that stops the shell. -/
theorem stepTokens_stops {state next : State W × List Text} {X : List Token} {token : Token}
    {stop : Stop W} (steps : stepTokens env state X = .ok next)
    (stopped : tokenStep env next token = .error stop) (Y : List Token) :
    stepTokens env state (X ++ token :: Y) = .error stop := by
  rw [stepTokens_append, steps]
  change stepTokens env next (token :: Y) = _
  rw [stepTokens, stopped]
  rfl

/-- At most one token stops the shell. -/
theorem stop_unique {state next next' : State W × List Text} {X X' Y Y' : List Token}
    {token token' : Token} {stop stop' : Stop W} (same : X ++ token :: Y = X' ++ token' :: Y')
    (steps : stepTokens env state X = .ok next) (stopped : tokenStep env next token = .error stop)
    (steps' : stepTokens env state X' = .ok next')
    (stopped' : tokenStep env next' token' = .error stop') : X = X' ∧ token = token' := by
  rcases List.append_eq_append_iff.mp same with ⟨Z, rfl, rest⟩ | ⟨Z, rfl, rest⟩
  · cases Z with
    | nil => exact ⟨(List.append_nil X).symm, (List.cons.inj rest).1⟩
    | cons first Z =>
        obtain ⟨rfl, -⟩ := List.cons.inj rest
        rw [stepTokens_stops env steps stopped] at steps'
        cases steps'
  · cases Z with
    | nil => exact ⟨List.append_nil X', (List.cons.inj rest).1.symm⟩
    | cons first Z =>
        obtain ⟨rfl, -⟩ := List.cons.inj rest
        rw [stepTokens_stops env steps' stopped'] at steps
        cases steps

/-- What an operator does to the flag once the command before it has ended. The other tokens
end no command. -/
def Token.operator : Token → Option (State W → State W)
  | .semi => some id
  | .andAnd => some fun s => { s with conditionalRun := s.error = 0 }
  | .orOr => some fun s => { s with conditionalRun := s.error ≠ 0 }
  | _ => none

/-- An operator changes the flag only. -/
theorem Token.operator_same {op : Token} {change : State W → State W}
    (operator : op.operator = some change) (s : State W) :
    (change s).os = s.os ∧ (change s).error = s.error ∧ (change s).inout = s.inout := by
  cases op with
  | semi | andAnd | orOr =>
      cases operator
      exact ⟨rfl, rfl, rfl⟩
  | word _ | redirect _ _ | noFile | pipe | amp => cases operator

theorem tokenStep_operator {op : Token} {change : State W → State W}
    (operator : op.operator = some change) (s : State W) (args : List Text) :
    tokenStep env (s, args) op = (finish env s args).map fun s => (change s, []) := by
  cases op with
  | semi | andAnd | orOr =>
      cases operator
      simp only [tokenStep]
      cases finish env s args <;> rfl
  | word _ | redirect _ _ | noFile | pipe | amp => cases operator

/-- An operator divides the tokens: they are executed one part after the other. -/
theorem runTokens_operator {op : Token} {change : State W → State W}
    (operator : op.operator = some change) (s : State W) (args : List Text) (X Y : List Token) :
    runTokens env s args (X ++ op :: Y) =
      (runTokens env s args X).bind fun s => runTokens env (change s) [] Y := by
  induction X generalizing s args with
  | nil =>
      rw [List.nil_append, runTokens, runTokens, tokenStep_operator env operator]
      cases finish env s args <;> rfl
  | cons token X ih =>
      simp only [List.cons_append, runTokens]
      cases tokenStep env (s, args) token with
      | error stop => rfl
      | ok next => exact ih next.1 next.2

/-- The tokens from an operator on. -/
theorem runTokens_operator_cons {op : Token} {change : State W → State W}
    (operator : op.operator = some change) (s : State W) (args : List Text) (Y : List Token) :
    runTokens env s args (op :: Y) =
      (finish env s args).bind fun s => runTokens env (change s) [] Y :=
  runTokens_operator env operator s args [] Y

/-- The words among tokens. -/
def wordsOf (toks : List Token) : List Text :=
  toks.filterMap fun token =>
    match token with
    | .word text => some text
    | _ => none

/-- A token that adds a word or separates words at most. -/
def Token.plain : Token → Bool
  | .word _ | .pipe | .amp => true
  | _ => false

/-- There is no room for a word. -/
theorem tokenStep_full (s : State W) {args : List Text} (full : ¬ args.length + 1 < maxArgs)
    (word : Text) : tokenStep env (s, args) (.word word) = .error (.fault s) := if_neg full

/-- The words of a command are collected as long as there is room for them. -/
theorem runTokens_plain {toks : List Token} (plain : ∀ token ∈ toks, token.plain = true)
    (s : State W) {args : List Text} (started : args.length < maxArgs) (rest : List Token) :
    runTokens env s args (toks ++ rest) =
      if args.length + (wordsOf toks).length < maxArgs then
        runTokens env s (args ++ wordsOf toks) rest
      else .error (.fault s) := by
  induction toks generalizing args with
  | nil =>
      rw [wordsOf, List.filterMap_nil, List.append_nil, if_pos (by simpa using started)]
      rfl
  | cons token toks ih =>
      have later := fun args =>
        @ih (fun token member => plain token (List.mem_cons_of_mem _ member)) args
      cases token with
      | word text =>
          have words : wordsOf (.word text :: toks) = text :: wordsOf toks := rfl
          by_cases room : args.length + 1 < maxArgs
          · have step : runTokens env s args (.word text :: toks ++ rest) =
                runTokens env s (args ++ [text]) (toks ++ rest) := by
              rw [List.cons_append, runTokens, tokenStep, if_pos room]
              rfl
            have length : args.length + (text :: wordsOf toks).length =
                (args ++ [text]).length + (wordsOf toks).length := by
              simp only [List.length_append, List.length_cons, List.length_nil]
              omega
            rw [step, later (args ++ [text]) (by simpa using room), words, length,
              List.append_assoc, List.singleton_append]
          · rw [words, if_neg (by rw [List.length_cons]; omega), List.cons_append, runTokens,
              tokenStep, if_neg room]
            rfl
      | pipe => exact later args started
      | amp => exact later args started
      | redirect write file => cases plain _ List.mem_cons_self
      | noFile => cases plain _ List.mem_cons_self
      | semi => cases plain _ List.mem_cons_self
      | andAnd => cases plain _ List.mem_cons_self
      | orOr => cases plain _ List.mem_cons_self

theorem plain_words (words : List Text) : ∀ token ∈ words.map Token.word, token.plain = true := by
  intro token member
  obtain ⟨word, -, rfl⟩ := List.mem_map.mp member
  rfl

theorem wordsOf_words (words : List Text) : wordsOf (words.map .word) = words := by
  rw [wordsOf, List.filterMap_map]
  exact List.filterMap_some

theorem stepTokens_words (s : State W) (args words : List Text)
    (room : args.length + words.length < maxArgs) :
    stepTokens env (s, args) (words.map .word) = .ok (s, args ++ words) := by
  induction words generalizing args with
  | nil =>
      rw [List.append_nil]
      rfl
  | cons word words ih =>
      rw [List.length_cons] at room
      have first : args.length + 1 < maxArgs := by omega
      have later := ih (args ++ [word])
        (by simp only [List.length_append, List.length_singleton]; omega)
      rw [List.append_assoc, List.singleton_append] at later
      rw [List.map_cons, stepTokens, tokenStep, if_pos first]
      exact later

theorem runTokens_words (s : State W) (args words : List Text) (toks : List Token)
    (room : args.length + words.length < maxArgs) :
    runTokens env s args (words.map .word ++ toks) = runTokens env s (args ++ words) toks := by
  rw [runTokens_plain env (plain_words words) s (Nat.lt_of_le_of_lt (Nat.le_add_right _ _) room),
    wordsOf_words, if_pos room]

/-! ## What can be observed -/

/-- What can be observed of a state: `conditional_run` is set anew for every line. -/
def State.observed (s : State W) : State W := { s with conditionalRun := true }

/-- What can be observed of a stop. -/
def Stop.observed : Stop W → Stop W
  | .exited status s => .exited status s.observed
  | .fault s => .fault s.observed
  | .spin => .spin

/-- What can be observed of a run. -/
def observed : Except (Stop W) (State W) → Except (Stop W) (State W)
  | .ok s => .ok s.observed
  | .error stop => .error stop.observed

theorem restoreStd_flag (s : State W) (flag : Bool) :
    { s with conditionalRun := flag }.restoreStd =
      { s.restoreStd with conditionalRun := flag } := by
  simp only [State.restoreStd, State.restoreStdin, State.restoreStdout]
  split <;> split <;> rfl

theorem redirectToken_flag (s : State W) (flag : Bool) (args : List Text) (write : Bool)
    (file : Text) : redirectToken env { s with conditionalRun := flag } args write file =
      ({ (redirectToken env s args write file).1 with conditionalRun := flag },
        (redirectToken env s args write file).2) := by
  unfold redirectToken
  cases s.os.openFile env file write with
  | mk fd os => cases fd <;> cases write <;> rfl

theorem redirectToken_nil (s : State W) (write : Bool) (file : Text) :
    (redirectToken env s [] write file).2 = [] := by
  rw [redirectToken]
  cases s.os.openFile env file write with
  | mk fd os => cases fd <;> rfl

end OsTasks.Shell
