import OsTasks.Shell.Execute
import OsTasks.Shell.Refine

/-!
# Skipped commands

A command that `&&` or `||` skips should leave no trace: the run of the line should go on as if
the command were not there (`Skipped.NoEffect`). The scanner opens the files of a command while
it reads them, and decides to skip the command only at its end. `Skipped.noEffect_iff` says
exactly which skipped commands have no effect: those without redirections whose words fit
into `args`.
-/

set_option autoImplicit false

namespace OsTasks.Shell

variable {W : Type}

/-! ## What a redirection leaves behind -/

/-- The token ends a command. -/
def Token.ends : Token → Bool
  | .semi | .andAnd | .orOr => true
  | _ => false

/-- The token is a redirection, complete or not. -/
def Token.redirects : Token → Bool
  | .redirect _ _ | .noFile => true
  | _ => false

theorem Token.plain_of_not {token : Token} (inside : token.ends = false)
    (keeps : token.redirects = false) : token.plain = true := by
  cases token with
  | word _ | pipe | amp => rfl
  | redirect _ _ | noFile => cases keeps
  | semi | andAnd | orOr => cases inside

theorem Token.operator_of_ends {token : Token} (ends : token.ends = true) :
    ∃ change : State W → State W, token.operator = some change := by
  cases token with
  | semi | andAnd | orOr => exact ⟨_, rfl⟩
  | word _ | redirect _ _ | noFile | pipe | amp => cases ends

theorem Token.operator_std {op : Token} {change : State W → State W}
    (operator : op.operator = some change) {s : State W} (std : s.Std) : (change s).Std :=
  (Token.operator_same operator s).2.2.trans std

variable (env : Env W)

theorem openFile_log (os : Os W) (name : Text) (write : Bool) :
    (os.openFile env name write).2.log =
      os.log ++ [.opened name write (os.openFile env name write).1] := by
  rw [Os.openFile]
  split
  · rfl
  · generalize (if write then env.getcwdmode os.world else 0) = mode
    dsimp only
    split
    · rfl
    · rfl

/-- A redirection is recorded, and does not look at the flag. -/
theorem redirectToken_log (s : State W) (args : List Text) (write : Bool) (file : Text) :
    ∃ fd, (redirectToken env s args write file).1.os.log = s.os.log ++ [.opened file write fd] ∧
      (redirectToken env s args write file).1.conditionalRun = s.conditionalRun ∧
      (redirectToken env s args write file).1.error = s.error := by
  have opened := openFile_log env s.os file write
  rw [redirectToken]
  cases result : s.os.openFile env file write with
  | mk fd os =>
      rw [result] at opened
      refine ⟨fd, ?_⟩
      cases fd with
      | none => exact ⟨opened, rfl, rfl⟩
      | some fd => cases write <;> exact ⟨opened, rfl, rfl⟩

/-- Every redirection of a skipped command is in the log. -/
theorem runTokens_skipped_log {toks : List Token} (inside : ∀ token ∈ toks, token.ends = false)
    {s s' : State W} (skips : s.conditionalRun = false) {args : List Text}
    (ran : runTokens env s args toks = .ok s') :
    s.os.log.length + toks.countP Token.redirects ≤ s'.os.log.length := by
  induction toks generalizing s args with
  | nil =>
      rw [runTokens, finish_skipped env (.inr skips)] at ran
      cases ran
      rw [restoreStd_log, List.countP_nil, Nat.add_zero]
  | cons token toks ih =>
      have later := @ih fun token member => inside token (List.mem_cons_of_mem _ member)
      cases token with
      | word text =>
          rw [runTokens, tokenStep] at ran
          split at ran
          · exact later skips ran
          · cases ran
      | redirect write file =>
          obtain ⟨fd, log, flag, -⟩ := redirectToken_log env s args write file
          have grown := later (flag.trans skips) ran
          rw [log, List.length_append, List.length_singleton] at grown
          rw [List.countP_cons_of_pos rfl]
          omega
      | noFile => cases ran
      | pipe | amp => exact later skips ran
      | semi | andAnd | orOr => cases inside _ List.mem_cons_self

/-! ## Skipped commands of a line -/

/-- A command of a line that is not executed because `conditional_run` is 0: the tokens of the
line before it, the operator, the command, and the tokens from its end on. `start` is the state
in which the scanner comes to the command. -/
structure Skipped (s : State W) (line : Text) where
  before : List Token
  op : Token
  command : List Token
  after : List Token
  start : State W
  splits : tokens line = before ++ op :: (command ++ after)
  operator : op.ends = true
  inside : ∀ token ∈ command, token.ends = false
  ends : ∀ token ∈ after.head?, token.ends = true
  reached : runTokens env s.start [] (before ++ [op]) = .ok start
  skips : start.conditionalRun = false

namespace Skipped

variable {env} {s : State W} {line : Text}

/-- The files, the descriptors and the log are the same before the command and at its end, and
the whole line runs as it does without the command. -/
def NoEffect (skipped : Skipped env s line) : Prop :=
  (∃ s', runTokens env s.start [] (skipped.before ++ skipped.op :: skipped.command) = .ok s' ∧
    s'.os = skipped.start.os) ∧
  observed (processCommand env s line) =
    observed (runTokens env s.start [] (skipped.before ++ skipped.op :: skipped.after))

theorem start_std (skipped : Skipped env s line) : skipped.start.Std :=
  runTokens_std env skipped.reached

/-- The line goes on from `start`. -/
theorem resume (skipped : Skipped env s line) (toks : List Token) :
    runTokens env s.start [] (skipped.before ++ skipped.op :: toks) =
      runTokens env skipped.start [] toks := by
  obtain ⟨change, operator⟩ := Token.operator_of_ends (W := W) skipped.operator
  have reached := skipped.reached
  rw [runTokens_operator env operator] at reached ⊢
  cases ran : runTokens env s.start [] skipped.before with
  | error stop =>
      rw [ran] at reached
      cases reached
  | ok s₀ =>
      rw [ran] at reached
      have std : (change s₀).Std := Token.operator_std operator (runTokens_std env ran)
      have same : change s₀ = skipped.start :=
        Except.ok.inj ((finish_nil env std).symm.trans reached)
      rw [← same]
      rfl

/-- A command without redirections is dropped at its end. -/
theorem drops (skipped : Skipped env s line)
    (keeps : ∀ token ∈ skipped.command, token.redirects = false) (toks : List Token) :
    runTokens env skipped.start [] (skipped.command ++ toks) =
      if (wordsOf skipped.command).length < maxArgs then
        runTokens env skipped.start (wordsOf skipped.command) toks
      else .error (.fault skipped.start) := by
  have plain : ∀ token ∈ skipped.command, token.plain = true := by
    intro token member
    exact Token.plain_of_not (skipped.inside token member) (keeps token member)
  have collected := runTokens_plain env plain skipped.start (show [].length < maxArgs by decide) toks
  rw [List.length_nil, Nat.zero_add, List.nil_append] at collected
  exact collected

/-- At the end of a skipped command its words are forgotten. -/
theorem forgets (skipped : Skipped env s line) (args : List Text) :
    runTokens env skipped.start args skipped.after =
      runTokens env skipped.start [] skipped.after := by
  have skip := finish_skips env skipped.start_std skipped.skips
  have ends := skipped.ends
  cases after : skipped.after with
  | nil => rw [runTokens, runTokens, skip, skip]
  | cons op toks =>
      rw [after] at ends
      obtain ⟨change, operator⟩ := Token.operator_of_ends (W := W) (ends op rfl)
      rw [runTokens, runTokens, tokenStep_operator env operator, tokenStep_operator env operator,
        skip, skip]

/-- **Skipped commands.** A skipped command has no effect exactly when it has no redirections
and its words fit into `args`. -/
theorem noEffect_iff (skipped : Skipped env s line) :
    skipped.NoEffect ↔ (∀ token ∈ skipped.command, token.redirects = false) ∧
      (wordsOf skipped.command).length < maxArgs := by
  constructor
  · rintro ⟨⟨s', ran, same⟩, -⟩
    rw [skipped.resume] at ran
    have grown := runTokens_skipped_log env skipped.inside skipped.skips ran
    rw [same] at grown
    have keeps : ∀ token ∈ skipped.command, token.redirects = false := by
      have none : skipped.command.countP Token.redirects = 0 := by omega
      simpa using List.countP_eq_zero.mp none
    refine ⟨keeps, ?_⟩
    have collected := skipped.drops keeps []
    rw [List.append_nil, ran] at collected
    split at collected
    · assumption
    · cases collected
  · rintro ⟨keeps, room⟩
    constructor
    · refine ⟨skipped.start, ?_, rfl⟩
      have collected := skipped.drops keeps []
      rw [List.append_nil, if_pos room] at collected
      rw [skipped.resume, collected]
      exact finish_skips env skipped.start_std skipped.skips _
    · rw [processCommand_eq, skipped.splits, skipped.resume, skipped.resume, skipped.drops keeps,
        if_pos room, skipped.forgets]

end Skipped

/-- The second command of `false && echo a || status`. -/
def skippedEcho : Skipped sampleEnv sampleState "false && echo a || status".toList where
  before := [.word "false".toList]
  op := .andAnd
  command := [.word "echo".toList, .word "a".toList]
  after := [.orOr, .word "status".toList]
  start := _
  splits := by decide +kernel
  operator := rfl
  inside := by decide
  ends := by decide
  reached := rfl
  skips := rfl

theorem skippedEcho_noEffect :
    ((∀ token ∈ skippedEcho.command, token.redirects = false) ∧
      (wordsOf skippedEcho.command).length < maxArgs) ∧ skippedEcho.NoEffect := by
  have condition : (∀ token ∈ skippedEcho.command, token.redirects = false) ∧
      (wordsOf skippedEcho.command).length < maxArgs := by decide
  exact ⟨condition, skippedEcho.noEffect_iff.mpr condition⟩

/-- The second command of `false && echo > f`. -/
def skippedRedirect : Skipped sampleEnv sampleState "false && echo > f".toList where
  before := [.word "false".toList]
  op := .andAnd
  command := [.word "echo".toList, .redirect true "f".toList]
  after := []
  start := _
  splits := by decide
  operator := rfl
  inside := by decide
  ends := nofun
  reached := rfl
  skips := rfl

/-- `false && echo > f` creates `f`. -/
theorem skipped_command_creates_file :
    ¬ ∀ (line : Text) (skipped : Skipped sampleEnv sampleState line), skipped.NoEffect := by
  intro law
  obtain ⟨⟨s', ran, same⟩, -⟩ := law _ skippedRedirect
  have created : (runTokens sampleEnv sampleState.start []
      (skippedRedirect.before ++ skippedRedirect.op :: skippedRedirect.command)).toOption.map
        (fun s => s.os.world) = some ["f".toList] := by decide +kernel
  have untouched : skippedRedirect.start.os.world = [] := by decide +kernel
  rw [ran, Except.toOption, Option.map_some, same, untouched] at created
  cases created

end OsTasks.Shell
