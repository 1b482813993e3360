import OsTasks.Shell.Conditional
import OsTasks.Shell.Skipped
import OsTasks.Shell.Visited

/-!
# Redirections without a file name

A `<` or `>` may stand before the end of the line, before another operator or before a comment.
`parseword` returns `NULL` there, and `process_command` should not use this as a string: it
should go on with the line, and not execute the command (`Tolerates`). But it calls `strlen` on
the `NULL`.

`tolerates_iff` says when the line is processed as it should be all the same: exactly when the
scanner does not come to such a `<` or `>`, because there is none or because the shell stops
before it.
-/

set_option autoImplicit false

namespace OsTasks.Shell

open OsTasks.Lib

variable {W : Type}

/-- What `process_command` should do with a `<` or `>` that no word follows. -/
structure Tolerates (env : Env W) (s : State W) (line : Text) : Prop where
  /-- The scan position stays inside the line, its NUL included. -/
  inside : ∀ state, Visits (scanTurn env) (scanStart s line) state → state.2.p ≤ line.length
  /-- The scan goes on. -/
  passes : ∀ state, Visits (scanTurn env) (scanStart s line) state → MissingTarget state.2 →
    ∃ next, scanTurn env state = .ok (.inl next)
  /-- At the end of the command nothing of it has been executed. -/
  skips : ∀ before after s₁ args, tokens line = before ++ .noFile :: after →
    stepTokens env (s.start, []) before = .ok (s₁, args) →
      ∃ s₂, runTokens env s₁ args (.noFile :: after.takeWhile fun token => !token.ends) = .ok s₂ ∧
        commandsRun s₂.os.log = commandsRun s₁.os.log

/-- The shell stops before it comes to an incomplete redirection. -/
def StopsBefore (env : Env W) (s : State W) (line : Text) : Prop :=
  ∀ before after, tokens line = before ++ .noFile :: after →
    ∃ stop, stepTokens env (s.start, []) before = .error stop

variable {env : Env W} {s : State W} {line : Text}

theorem visits_inside {state : State W × Line}
    (visits : Visits (scanTurn env) (scanStart s line) state) : state.2.p ≤ line.length := by
  cases starts : stopsAtOnce line with
  | false =>
      obtain ⟨rest, args, reached⟩ := visits_reached env starts visits
      have place := reached.place
      omega
  | true =>
      rcases visits_ignored env starts visits with rfl | ⟨first, -, -⟩
      · exact Nat.zero_le _
      · rw [first]
        exact Nat.zero_le _

/-- The scanner comes to an incomplete redirection of the line. -/
theorem reached_missing {state : State W × Line}
    (visits : Visits (scanTurn env) (scanStart s line) state) (missing : MissingTarget state.2) :
    ∃ before after next, tokens line = before ++ .noFile :: after ∧
      stepTokens env (s.start, []) before = .ok next := by
  cases starts : stopsAtOnce line with
  | false =>
      obtain ⟨rest, args, reached⟩ := visits_reached env starts visits
      obtain ⟨-, fits, target⟩ := (missingTarget_iff reached.scanned).mp missing
      obtain ⟨before, split, executed⟩ := reached.executed
      obtain ⟨after, noFile⟩ := target.lexed
      refine ⟨before ++ wordToken (lexWord rest).1, after, _, ?_,
        stepTokens_trans env executed (stepTokens_word env state.1 fits)⟩
      rw [tokens_eq_lex starts, split, lex_eq rest, noFile, List.append_assoc]
  | true =>
      rcases visits_ignored env starts visits with rfl | ⟨-, written, -⟩
      · -- The first character of such a line is another delimiter.
        obtain ⟨-, -, target⟩ := (missingTarget_iff (scanned_start line)).mp missing
        obtain ⟨lexed, -, -, other⟩ := lexWord_ignored starts
        rw [lexed] at target
        exact absurd target other
      · exact absurd written missing.1

/-- **Redirections without a file name.** The line is processed as it should be exactly when the
shell stops before every `<` and `>` that no word follows. -/
theorem tolerates_iff (env : Env W) (s : State W) (line : Text) :
    Tolerates env s line ↔ StopsBefore env s line := by
  constructor
  · intro tolerates before after split
    cases steps : stepTokens env (s.start, []) before with
    | error stop => exact ⟨stop, rfl⟩
    | ok next =>
        have stopped : tokenStep env next .noFile = .error (.fault next.1) := rfl
        obtain ⟨state, -, -, visits, -, ⟨stop, fault⟩, missing, -⟩ :=
          exists_stop env split steps stopped
        obtain ⟨later, passed⟩ := tolerates.passes state visits (missing rfl)
        rw [fault] at passed
        cases passed
  · intro stops
    refine ⟨fun _ => visits_inside, ?_, ?_⟩
    · intro state visits missing
      obtain ⟨before, after, next, split, steps⟩ := reached_missing visits missing
      obtain ⟨stop, stopped⟩ := stops before after split
      rw [steps] at stopped
      cases stopped
    · intro before after s₁ args split steps
      obtain ⟨stop, stopped⟩ := stops before after split
      rw [steps] at stopped
      cases stopped

/-- Nothing follows the `>`. -/
theorem redirect_without_file_faults : ¬ Tolerates sampleEnv sampleState "ls >".toList := by
  intro tolerates
  have split : tokens "ls >".toList = [.word "ls".toList] ++ .noFile :: [] := rfl
  obtain ⟨s₂, ran, -⟩ := tolerates.skips _ _ _ _ split rfl
  cases ran

end OsTasks.Shell
