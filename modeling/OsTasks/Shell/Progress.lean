import OsTasks.Shell.Bounds

/-!
# Progress of the scanner

The increment of the loop of `process_command` does not move `p` at the beginning of the line, the
redirections move it forward and back again, and the NUL that the loop looks for may be one that
it has written itself. `scan_progress` says that the scan ends all the same: from one turn to the
next `p` grows, and it never passes the NUL of the line.

The only fault of a line whose redirections have their files is a command with too many words
(`runTokens_fault`).
-/

set_option autoImplicit false

namespace OsTasks.Shell

open OsTasks.Lib

variable {W : Type}

/-- A value of `p` in a turn: in the test of the loop; in `parseword`; after the `++p` of a double
operator; and from the `++p` of a redirection to the end of the name of its file. -/
def Line.Takes (l : Line) (i : Nat) : Prop :=
  let p := (parseword l.mem l.p).2
  i = l.p ∨
    (peek l.mem l.p ≠ nul ∧
      ((l.p ≤ i ∧ i ≤ p) ∨
        ((peek l.mem p = '|' ∨ peek l.mem p = '&') ∧ peek l.mem (p + 1) = peek l.mem p ∧
          i = p + 1) ∨
        ((peek l.mem p = '>' ∨ peek l.mem p = '<') ∧ p + 1 ≤ i ∧
          i ≤ (parseword (l.mem.set p nul) (p + 1)).2)))

/-- The values of `p` in a turn do not pass the NUL. -/
theorem takes_le {l : Line} {rest : Text} {args : List Text} (scanned : Scanned l rest args)
    {n : Nat} (size : l.mem.length = n + 1) {i : Nat} (takes : l.Takes i) : i ≤ n := by
  have suffix := scanned.suffix
  obtain ⟨-, after⟩ := drop_parseword suffix
  have place := place_of_suffix suffix size
  have ends := place_of_suffix after size
  simp only [Line.Takes] at takes
  rw [parseword_eq suffix, peek_eq suffix, peek_eq after, peek_succ_eq after] at takes
  generalize l.p + gap rest + (lexWord rest).1.length = d at *
  rcases takes with rfl | ⟨-, ⟨-, less⟩ | ⟨sign, twice, rfl⟩ | ⟨sign, -, less⟩⟩
  · omega
  · dsimp only at less
    omega
  · cases delimiter : (lexWord rest).2 with
    | nil =>
        rw [delimiter] at sign
        rcases sign with sign | sign <;> cases sign
    | cons c text =>
        rw [delimiter, List.length_cons] at ends
        dsimp only
        omega
  · cases delimiter : (lexWord rest).2 with
    | nil =>
        rw [delimiter] at sign
        rcases sign with sign | sign <;> cases sign
    | cons c text =>
        rw [delimiter] at after
        exact less.trans (file_le after size)

/-! ## Faults -/

section Faults

variable (env : Env W)

/-- A command does not fault: it returns or ends the shell. -/
theorem finish_no_fault (s s' : State W) (args : List Text) :
    finish env s args ≠ .error (.fault s') := by
  intro fault
  by_cases skipped : args = [] ∨ s.conditionalRun = false
  · rw [finish_skipped env skipped] at fault
    cases fault
  · cases found : findBuiltin args with
    | some builtin =>
        rw [finish_builtin env skipped found] at fault
        cases builtin <;> cases fault
    | none =>
        rw [finish_external env skipped found, forkCommand] at fault
        split at fault <;> cases fault

/-- A token that faults is a redirection without a file or a word without a place. -/
theorem tokenStep_fault {s s' : State W} {args : List Text} {token : Token}
    (fault : tokenStep env (s, args) token = .error (.fault s')) :
    token = .noFile ∨ ∃ word, token = .word word ∧ ¬ args.length + 1 < maxArgs := by
  have ended : ∀ {change : State W → State W}, token.operator ≠ some change := by
    intro change operator
    rw [tokenStep_operator env operator] at fault
    cases finished : finish env s args with
    | error stop =>
        rw [finished] at fault
        cases fault
        exact finish_no_fault env s s' args finished
    | ok next =>
        rw [finished] at fault
        cases fault
  cases token with
  | word word =>
      by_cases room : args.length + 1 < maxArgs
      · rw [tokenStep, if_pos room] at fault
        cases fault
      · exact .inr ⟨word, rfl, room⟩
  | noFile => exact .inl rfl
  | semi | andAnd | orOr => exact absurd rfl ended
  | redirect _ _ | pipe | amp => cases fault

/-- The token at which a line faults. -/
theorem runTokens_fault {s s' : State W} {args : List Text} {toks : List Token}
    (fault : runTokens env s args toks = .error (.fault s')) :
    ∃ before token after s₁ args₁, toks = before ++ token :: after ∧
      stepTokens env (s, args) before = .ok (s₁, args₁) ∧
      (token = .noFile ∨ ∃ word, token = .word word ∧ ¬ args₁.length + 1 < maxArgs) := by
  induction toks generalizing s args with
  | nil => exact absurd fault (finish_no_fault env s s' args)
  | cons token toks ih =>
      rw [runTokens] at fault
      cases stepped : tokenStep env (s, args) token with
      | error stop =>
          rw [stepped] at fault
          cases fault
          exact ⟨[], token, toks, s, args, rfl, rfl, tokenStep_fault env stepped⟩
      | ok next =>
          rw [stepped] at fault
          obtain ⟨before, found, after, s₁, args₁, split, steps, kind⟩ := ih fault
          refine ⟨token :: before, found, after, s₁, args₁, by rw [split]; rfl, ?_, kind⟩
          rw [stepTokens, stepped]
          exact steps

end Faults

/-! ## Progress -/

/-- From one turn to the next `p` grows, unless the line is over. -/
theorem visits_grow {env : Env W} {s : State W} {line : Text} {state next : State W × Line}
    (visits : Visits (scanTurn env) (scanStart s line) state)
    (again : scanTurn env state = .ok (.inl next)) (more : peek next.2.mem next.2.p ≠ nul) :
    state.2.p < next.2.p := by
  cases starts : stopsAtOnce line with
  | true =>
      -- NUL has been written over the first character, and there is no next turn.
      obtain ⟨l', first, -, written, -⟩ :=
        scanTurn_stops env (s := s.start) rfl starts (scanned_start line) rfl
      rcases visits_ignored env starts visits with rfl | ⟨-, -, s', ended⟩
      · rw [scanStart, first] at again
        cases again
        exact absurd written more
      · rw [ended] at again
        cases again
  | false =>
      obtain ⟨rest, args, reached⟩ := visits_reached env starts visits
      have turn := reached.turn
      rw [again] at turn
      generalize outcome : Except.ok (Sum.inl next) = result at turn
      cases turn with
      | @ends args' _ _ =>
          cases finished : finish env state.1 args' <;> rw [finished] at outcome <;> cases outcome
      | full _ _ _ | missing _ _ _ | stops _ _ _ _ => cases outcome
      | moves _ _ shorter _ size scanned _ _ =>
          cases outcome
          have here := reached.place
          have there := place_of_suffix scanned.suffix (size.trans reached.size)
          dsimp only
          omega

/-- The values of `p` in all turns. -/
theorem visits_takes_le {env : Env W} {s : State W} {line : Text} {state : State W × Line}
    (visits : Visits (scanTurn env) (scanStart s line) state) {i : Nat}
    (takes : state.2.Takes i) : i ≤ line.length := by
  cases starts : stopsAtOnce line with
  | true =>
      rcases visits_ignored env starts visits with rfl | ⟨first, written, -⟩
      · exact takes_le (scanned_start line) List.length_append takes
      · rcases takes with here | ⟨more, -⟩
        · rw [here, first]
          exact Nat.zero_le _
        · exact absurd written more
  | false =>
      obtain ⟨rest, args, reached⟩ := visits_reached env starts visits
      exact takes_le reached.scanned reached.size takes

/-- **Progress of the scanner.** When every redirection of a line has its file, the scan ends, and
it faults only when a command has too many words. From one turn to the next `p` grows, and it
never passes the NUL of the line. -/
theorem scan_progress (env : Env W) (s : State W) (line : Text)
    (targets : .noFile ∉ tokens line) :
    (∃ result, loop (scanTurn env) (line.length + 2) (scanStart s line) = some result ∧
        (WordsFit env s line → ∀ s', result ≠ .error (.fault s'))) ∧
      (∀ state next, Visits (scanTurn env) (scanStart s line) state →
        scanTurn env state = .ok (.inl next) → peek next.2.mem next.2.p ≠ nul →
          state.2.p < next.2.p) ∧
      ∀ state, Visits (scanTurn env) (scanStart s line) state →
        ∀ i, state.2.Takes i → i ≤ line.length := by
  refine ⟨⟨_, loop_start env s line, fun fit s' fault => ?_⟩,
    fun state next visits again more => visits_grow visits again more,
    fun state visits i takes => visits_takes_le visits takes⟩
  obtain ⟨before, token, after, s₁, args, split, steps, rfl | ⟨word, rfl, full⟩⟩ :=
    runTokens_fault env fault
  · exact targets (by rw [split]; exact List.mem_append_right _ List.mem_cons_self)
  · exact full (fit before word after s₁ args split steps)

/-- A redirection in the middle of a line, where `p` is moved back. -/
theorem scan_progress_redirect : .noFile ∉ tokens "cat < f || ls".toList ∧
    ∃ result, loop (scanTurn sampleEnv) ("cat < f || ls".toList.length + 2)
      (scanStart sampleState "cat < f || ls".toList) = some result := by
  have read : tokens "cat < f || ls".toList =
      [.word "cat".toList, .redirect false "f".toList, .orOr, .word "ls".toList] := rfl
  have targets : .noFile ∉ tokens "cat < f || ls".toList := by
    rw [read]
    decide
  obtain ⟨⟨result, ended, -⟩, -⟩ := scan_progress sampleEnv sampleState _ targets
  exact ⟨targets, result, ended⟩

end OsTasks.Shell
