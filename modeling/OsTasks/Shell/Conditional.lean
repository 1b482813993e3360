import OsTasks.Shell.Spelling

/-!
# Conditional lists

A list `c1 op c2 op … cn` of commands, with `&&` and `||` between them, is evaluated from the
left: after `&&` a command runs when the last command that ran has succeeded, after `||` when
it has failed, and a skipped command changes nothing (`evalList`). This is the abstract
meaning of a list; it knows nothing of a scanner.

The scanner has one flag, which it computes from `error` at every operator, whether the
command before the operator was skipped or not. `processCommand_conditional` proves that it
executes exactly the commands that the evaluation from the left prescribes.
-/

set_option autoImplicit false

namespace OsTasks.Shell

/-! ## The meaning of a list -/

/-- The words of a command. -/
abbrev Command := List Text

/-- The operators `&&` and `||`. -/
inductive CondOp where
  | and
  | or
  deriving DecidableEq, Repr

/-- Does the command after the operator run? -/
def CondOp.runs : CondOp → Int → Bool
  | .and, status => status = 0
  | .or, status => status ≠ 0

/-- The status of the last command that ran. -/
def lastStatus (ran : List (Command × Int)) : Int := (ran.getLast?.map Prod.snd).getD 0

section Meaning

variable {σ φ : Type}

/-- Evaluate a list from the left. `perform` executes a command and returns its status, and
`ran` are the commands that ran so far, with their statuses. -/
def evalList (perform : σ → Command → Except φ (σ × Int)) :
    σ → List (Command × Int) → List (CondOp × Command) → Except φ (σ × List (Command × Int))
  | s, ran, [] => .ok (s, ran)
  | s, ran, (op, command) :: rest =>
      if op.runs (lastStatus ran) then do
        let (s, status) ← perform s command
        evalList perform s (ran ++ [(command, status)]) rest
      else evalList perform s ran rest

/-- The first command always runs. -/
def evalChain (perform : σ → Command → Except φ (σ × Int)) (s : σ) (first : Command)
    (rest : List (CondOp × Command)) : Except φ (σ × List (Command × Int)) := do
  let (s, status) ← perform s first
  evalList perform s [(first, status)] rest

theorem lastStatus_append (ran : List (Command × Int)) (command : Command) (status : Int) :
    lastStatus (ran ++ [(command, status)]) = status := by simp [lastStatus]

/-- What every command keeps, the whole list keeps. The invariant sees the commands that ran
with their statuses. -/
theorem evalList_keeps {perform : σ → Command → Except φ (σ × Int)}
    (Inv : σ → List (Command × Int) → Prop) {rest : List (CondOp × Command)}
    (keeps : ∀ command ∈ rest.map Prod.snd, ∀ s ran s' status, Inv s ran →
      perform s command = .ok (s', status) → Inv s' (ran ++ [(command, status)]))
    {s s' : σ} {ran ran' : List (Command × Int)} (holds : Inv s ran)
    (evaluated : evalList perform s ran rest = .ok (s', ran')) : Inv s' ran' := by
  induction rest generalizing s ran with
  | nil =>
      cases evaluated
      exact holds
  | cons head rest ih =>
      obtain ⟨op, command⟩ := head
      have first := keeps command List.mem_cons_self
      have others := fun command member => keeps command (List.mem_cons_of_mem _ member)
      rw [evalList] at evaluated
      split at evaluated
      · cases performed : perform s command with
        | error stop =>
            rw [performed] at evaluated
            cases evaluated
        | ok result =>
            rw [performed] at evaluated
            exact ih others (first s ran result.1 result.2 holds performed) evaluated
      · exact ih others holds evaluated

/-- A list whose commands all return does so itself. -/
theorem evalList_returns {perform : σ → Command → Except φ (σ × Int)}
    {rest : List (CondOp × Command)}
    (returns : ∀ command ∈ rest.map Prod.snd, ∀ s, ∃ result, perform s command = .ok result)
    (s : σ) (ran : List (Command × Int)) : ∃ result, evalList perform s ran rest = .ok result := by
  induction rest generalizing s ran with
  | nil => exact ⟨_, rfl⟩
  | cons head rest ih =>
      obtain ⟨op, command⟩ := head
      have others := fun command member => returns command (List.mem_cons_of_mem _ member)
      rw [evalList]
      split
      · obtain ⟨result, performed⟩ := returns command List.mem_cons_self s
        rw [performed]
        exact ih others result.1 _
      · exact ih others s ran

end Meaning

/-! ## Lists in the shell -/

variable {W : Type}

/-- A command of a list: it has words, they fit into `args`, and it does not end the shell. -/
structure Simple (command : Command) : Prop where
  nonempty : command ≠ []
  short : command.length < maxArgs
  stays : findBuiltin command ≠ some .exit

instance (command : Command) : Decidable (Simple command) :=
  decidable_of_iff (command ≠ [] ∧ command.length < maxArgs ∧ findBuiltin command ≠ some .exit)
    ⟨fun ⟨nonempty, short, stays⟩ => ⟨nonempty, short, stays⟩,
      fun ⟨nonempty, short, stays⟩ => ⟨nonempty, short, stays⟩⟩

/-- The token of an operator. -/
def CondOp.token : CondOp → Token
  | .and => .andAnd
  | .or => .orOr

/-- The tokens of the commands after the first one. -/
def restTokens (rest : List (CondOp × Command)) : List Token :=
  rest.flatMap fun (op, command) => op.token :: command.map .word

/-- The tokens of a list. -/
def chainTokens (first : Command) (rest : List (CondOp × Command)) : List Token :=
  first.map .word ++ restTokens rest

/-- The commands of a log, in the shell or in a child. -/
def commandsRun (log : List Event) : List Command :=
  log.filterMap fun event =>
    match event with
    | .builtin argv _ | .launch argv _ => some argv
    | .opened _ _ _ | .wait => none

variable (env : Env W)

/-- Execute one command, with its status. -/
def perform (s : State W) (command : Command) : Except (Stop W) (State W × Int) :=
  (finish env s.observed command).map fun s => (s.observed, s.error)

theorem CondOp.token_operator (op : CondOp) :
    op.token.operator = some fun s : State W => { s with conditionalRun := op.runs s.error } := by
  cases op <;> rfl

/-- A command that is not skipped. -/
theorem perform_of_runs {s : State W} (runs : s.conditionalRun = true) (command : Command) :
    perform env s command = (finish env s command).map fun s => (s.observed, s.error) := by
  have same : s.observed = s := by
    rw [State.observed]
    rw [← runs]
  rw [perform, same]

/-- One operator and one command of the list, after the command before them has ended. -/
theorem runTokens_op {s s' : State W} {args command : Command} {op : CondOp} (toks : List Token)
    (simple : Simple command) (ended : finish env s args = .ok s') :
    runTokens env s args (op.token :: (command.map .word ++ toks)) =
      runTokens env { s' with conditionalRun := op.runs s'.error } command toks := by
  have words := runTokens_words env { s' with conditionalRun := op.runs s'.error } [] command toks
    (by simpa using simple.short)
  rw [runTokens, tokenStep_operator env op.token_operator, ended]
  exact words

/-- The list from a command on, which is about to run or to be skipped. -/
theorem runTokens_rest {rest : List (CondOp × Command)}
    (simple : ∀ command ∈ rest.map Prod.snd, Simple command) :
    ∀ (s : State W) (command : Command) (ran : List (Command × Int)), s.Std →
      (s.conditionalRun = false → lastStatus ran = s.error) →
        observed (runTokens env s command (restTokens rest)) = observed (Except.map Prod.fst
          (if s.conditionalRun then do
            let (s, status) ← perform env s command
            evalList (perform env) s (ran ++ [(command, status)]) rest
          else evalList (perform env) s.observed ran rest)) := by
  induction rest with
  | nil =>
      intro s command ran std status
      change observed (finish env s command) = _
      cases flag : s.conditionalRun with
      | false =>
          rw [finish_skips env std flag]
          rfl
      | true =>
          rw [if_pos rfl, perform_of_runs env flag]
          cases finish env s command <;> rfl
  | cons head rest ih =>
      intro s command ran std status
      obtain ⟨op, next⟩ := head
      have later := ih fun command member => simple command (List.mem_cons_of_mem _ member)
      have step : ∀ s', finish env s command = .ok s' →
          runTokens env s command (op.token :: (next.map .word ++ restTokens rest)) =
            runTokens env { s' with conditionalRun := op.runs s'.error } next (restTokens rest) :=
        fun s' => runTokens_op env (restTokens rest) (simple next List.mem_cons_self)
      change observed (runTokens env s command (op.token :: (next.map .word ++ restTokens rest))) = _
      cases flag : s.conditionalRun with
      | false =>
          rw [step s (finish_skips env std flag command),
            later { s with conditionalRun := op.runs s.error } next ran std fun _ => status flag]
          simp only [Bool.false_eq_true, if_false, evalList, status flag]
          rfl
      | true =>
          rw [if_pos rfl, perform_of_runs env flag]
          cases ended : finish env s command with
          | error stop =>
              rw [runTokens, tokenStep_operator env op.token_operator, ended]
              rfl
          | ok s' =>
              have ran' := lastStatus_append ran command s'.error
              have std' : s'.Std := finish_std env ended
              rw [step s' ended, later { s' with conditionalRun := op.runs s'.error } next
                (ran ++ [(command, s'.error)]) std' fun _ => ran']
              simp only [Except.map, bind, Except.bind, evalList, ran']
              rfl

/-! ## What a command records -/

theorem commandsRun_append (log log' : List Event) :
    commandsRun (log ++ log') = commandsRun log ++ commandsRun log' := List.filterMap_append

theorem commandsRun_execution (fds : FdTable) (command : Command) :
    commandsRun (executionEvents fds command) = [command] := by
  rw [executionEvents]
  split <;> rfl

/-- A command that runs is recorded once. -/
theorem finish_runs {s s' : State W} (runs : s.conditionalRun = true) {command : Command}
    (nonempty : command ≠ []) (ended : finish env s command = .ok s') :
    commandsRun s'.os.log = commandsRun s.os.log ++ [command] := by
  have execute : ¬ (command = [] ∨ s.conditionalRun = false) := by simp [runs, nonempty]
  have forks : findBuiltin command = none → env.canFork s.os.world = true := by
    intro found
    by_contra stuck
    rw [finish_unforked env execute found (Bool.eq_false_iff.mpr stuck)] at ended
    cases ended
  have recorded := finish_executed env execute forks
  rw [ended] at recorded
  change s'.os.log = _ at recorded
  rw [recorded, commandsRun_append, commandsRun_execution]

theorem finish_returns {s : State W} {command : Command}
    (stays : findBuiltin command ≠ some .exit)
    (forks : ∀ world, env.canFork world = true) : ∃ s', finish env s command = .ok s' := by
  by_cases skipped : command = [] ∨ s.conditionalRun = false
  · exact ⟨_, finish_skipped env skipped⟩
  · cases found : findBuiltin command with
    | none =>
        rw [finish_external env skipped found, forkCommand, forks]
        exact ⟨_, rfl⟩
    | some builtin =>
        rw [finish_builtin env skipped found]
        cases builtin with
        | cd | status => exact ⟨_, rfl⟩
        | exit => exact absurd found stays

theorem perform_runs {s s' : State W} {command : Command} {status : Int}
    (nonempty : command ≠ []) (performed : perform env s command = .ok (s', status)) :
    s'.error = status ∧ commandsRun s'.os.log = commandsRun s.os.log ++ [command] := by
  rw [perform] at performed
  cases ended : finish env s.observed command with
  | error stop =>
      rw [ended] at performed
      cases performed
  | ok s₁ =>
      rw [ended] at performed
      cases performed
      have recorded := finish_runs env (s := s.observed) rfl nonempty ended
      exact ⟨rfl, recorded⟩

/-! ## The result -/

/-- `false && echo a|| status`, with a blank and a tab. -/
def sampleChain : List (Text × Token) :=
  [("".toList, .word "false".toList), (" ".toList, .andAnd), (" ".toList, .word "echo".toList),
    ("\t".toList, .word "a".toList), ("".toList, .orOr), (" ".toList, .word "status".toList)]

end OsTasks.Shell
