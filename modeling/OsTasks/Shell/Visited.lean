import Mathlib.Logic.Relation
import OsTasks.Shell.Refine

/-!
# Where the scanner comes to

The loop of `process_command` goes over the line from one delimiter to the next. In every state
that it comes to (`Visits`), the buffer from `p` on is the rest of the line, and the tokens before
it have been executed (`visits_reached`). The texts that it comes to do not depend on what the
commands do (`Leads`); only how far it gets does.

A line that is ignored is the exception: the scanner writes NUL over its first character and
stays there (`visits_ignored`).
-/

set_option autoImplicit false

namespace OsTasks.Shell

open OsTasks.Lib

variable {W : Type}

/-- The state in which the scanner starts. -/
def scanStart (s : State W) (line : Text) : State W × Line :=
  (s.start, ⟨line ++ [nul], 0, List.replicate maxArgs none, 0⟩)

/-- From the text at which a turn starts to the one at which the next turn starts. -/
def Follows (rest rest' : Text) : Prop :=
  rest.headD nul ≠ nul ∧ nextText (lexWord rest).2 = some rest'

/-- The texts that the scanner comes to. -/
abbrev Leads : Text → Text → Prop := Relation.ReflTransGen Follows

theorem follows_unique : Relator.RightUnique Follows := by
  intro rest rest₁ rest₂ first second
  exact Option.some.inj (first.2.symm.trans second.2)

/-- The scanner ends at one text. -/
theorem leads_last {line rest₁ rest₂ : Text} (first : Leads line rest₁) (second : Leads line rest₂)
    (last₁ : ∀ rest, ¬ Follows rest₁ rest) (last₂ : ∀ rest, ¬ Follows rest₂ rest) :
    rest₁ = rest₂ := by
  rcases Relation.ReflTransGen.total_of_right_unique follows_unique first second with on | on
  · rcases Relation.ReflTransGen.cases_head on with same | ⟨next, follows, -⟩
    · exact same
    · exact absurd follows (last₁ next)
  · rcases Relation.ReflTransGen.cases_head on with same | ⟨next, follows, -⟩
    · exact same.symm
    · exact absurd follows (last₂ next)

theorem place_of_suffix {mem : List Char} {p n : Nat} {rest : Text}
    (suffix : mem.drop p = rest ++ [nul]) (size : mem.length = n + 1) : p + rest.length = n := by
  have length := congrArg List.length suffix
  rw [List.length_drop, size] at length
  simp only [List.length_append, List.length_singleton] at length
  omega

/-- The name of a file after the redirection at `d` ends inside the line. -/
theorem file_le {mem : List Char} {d n : Nat} {c : Char} {text : Text}
    (after : mem.drop d = c :: text ++ [nul]) (size : mem.length = n + 1) :
    (parseword (mem.set d nul) (d + 1)).2 ≤ n := by
  have tail : (mem.set d nul).drop (d + 1) = text ++ [nul] := by
    rw [List.drop_set, if_pos (by omega), ← List.drop_drop, after]
    rfl
  have place := place_of_suffix (drop_parseword tail).2 (by rw [List.length_set]; exact size)
  rw [parseword_eq tail]
  dsimp only
  omega

variable (env : Env W)

/-- The scanner has come to `rest`, with `args` as the words of the present command. -/
structure Reached (s : State W) (line : Text) (state : State W × Line) (rest : Text)
    (args : List Text) : Prop where
  leads : Leads line rest
  executed : ∃ before, lex line = before ++ lex rest ∧
    stepTokens env (s.start, []) before = .ok (state.1, args)
  scanned : Scanned state.2 rest args
  size : state.2.mem.length = line.length + 1
  moves : state.2.p = 0 → stopsAtOnce rest = false

namespace Reached

variable {env} {s : State W} {line : Text} {state : State W × Line} {rest : Text}
  {args : List Text}

theorem turn (reached : Reached env s line state rest args) :
    Turn env state.1 state.2 rest args (scanTurn env state) :=
  scanTurn_turn env state.1 reached.scanned reached.moves

/-- The place of `p`. -/
theorem place (reached : Reached env s line state rest args) :
    state.2.p + rest.length = line.length := place_of_suffix reached.scanned.suffix reached.size

end Reached

/-- **Every state that the scanner comes to.** -/
theorem visits_reached {s : State W} {line : Text} (starts : stopsAtOnce line = false)
    {state : State W × Line} (visits : Visits (scanTurn env) (scanStart s line) state) :
    ∃ rest args, Reached env s line state rest args := by
  induction visits with
  | start =>
      exact ⟨line, [], .refl, ⟨[], rfl, rfl⟩, scanned_start line, by simp [scanStart],
        fun _ => starts⟩
  | @turn state next _ turned ih =>
      obtain ⟨rest, args, reached⟩ := ih
      have turn := reached.turn
      rw [turned] at turn
      generalize outcome : Except.ok (Sum.inl next) = result at turn
      cases turn with
      | @ends args' _ _ =>
          cases finished : finish env state.1 args' with
          | error stop =>
              rw [finished] at outcome
              cases outcome
          | ok s' =>
              rw [finished] at outcome
              cases outcome
      | full _ _ _ => cases outcome
      | missing _ _ _ => cases outcome
      | stops _ _ _ _ => cases outcome
      | @moves toks _ _ _ _ more follows _ moved size scanned lexed steps =>
          cases outcome
          obtain ⟨before, split, executed⟩ := reached.executed
          refine ⟨_, _, .tail reached.leads ⟨more, follows⟩,
            ⟨before ++ toks, ?_, stepTokens_trans env executed steps⟩, scanned,
            size.trans reached.size, fun first => absurd first moved⟩
          rw [split, lexed, List.append_assoc]

/-- The states that the scanner comes to in a line that is ignored. -/
theorem visits_ignored {s : State W} {line : Text} (stops : stopsAtOnce line = true)
    {state : State W × Line} (visits : Visits (scanTurn env) (scanStart s line) state) :
    state = scanStart s line ∨ (state.2.p = 0 ∧ peek state.2.mem state.2.p = nul ∧
      ∃ s', scanTurn env state = .ok (.inr s')) := by
  have std : s.start.Std := rfl
  obtain ⟨l', again, place, written, done⟩ :=
    scanTurn_stops env std stops (scanned_start line) rfl
  have first : scanTurn env (scanStart s line) = .ok (.inl (s.start, l')) := again
  induction visits with
  | start => exact .inl rfl
  | turn _ turned ih =>
      rcases ih with rfl | ⟨-, -, s', ended⟩
      · rw [first] at turned
        cases turned
        exact .inr ⟨place, written, s.start, done⟩
      · rw [ended] at turned
        cases turned

/-- The scan has a last turn. -/
theorem exists_last {s : State W} {line : Text} (starts : stopsAtOnce line = false) :
    ∃ state rest args, Visits (scanTurn env) (scanStart s line) state ∧
      Reached env s line state rest args ∧ ∀ next, scanTurn env state ≠ .ok (.inl next) := by
  obtain ⟨last, visits, ended⟩ := loop_last (loop_start env s line)
  obtain ⟨rest, args, reached⟩ := visits_reached env starts visits
  refine ⟨last, rest, args, visits, reached, fun next again => ?_⟩
  rw [again] at ended
  cases result : runTokens env s.start [] (tokens line) with
  | error stop =>
      rw [result] at ended
      cases ended
  | ok s' =>
      rw [result] at ended
      cases ended

theorem tokens_eq_lex {line : Text} (starts : stopsAtOnce line = false) :
    tokens line = lex line := by
  rw [tokens, starts]
  rfl

/-- **The turn in which a token stops the shell.** A token of the line that is executed and stops
the shell is read in the last turn. -/
theorem exists_stop {s : State W} {line : Text} {before after : List Token} {token : Token}
    {next : State W × List Text} {stop : Stop W} (split : tokens line = before ++ token :: after)
    (steps : stepTokens env (s.start, []) before = .ok next)
    (stopped : tokenStep env next token = .error stop) :
    ∃ state rest args, Visits (scanTurn env) (scanStart s line) state ∧
      Reached env s line state rest args ∧ (∃ stop', scanTurn env state = .error stop') ∧
      (token = .noFile → MissingTarget state.2) ∧
      ∀ word, token = .word word → (lexWord rest).1 ≠ [] ∧ ¬ args.length + 1 < maxArgs := by
  have starts : stopsAtOnce line = false := by
    by_contra stops
    rw [tokens, if_pos (by simpa using stops)] at split
    simp at split
  obtain ⟨state, rest, args, visits, reached, final⟩ := exists_last env (s := s) starts
  obtain ⟨done, read, executed⟩ := reached.executed
  rw [tokens_eq_lex starts, read] at split
  refine ⟨state, rest, args, visits, reached, ?_⟩
  have turn := reached.turn
  generalize outcome : scanTurn env state = result at turn ⊢
  cases turn with
  | ends _ all =>
      have whole := stepTokens_trans env executed all
      rw [split, stepTokens_stops env steps stopped] at whole
      cases whole
  | @full word _ found full lexed =>
      rw [lexed] at split
      have stopped' := tokenStep_full env state.1 full word
      obtain ⟨-, rfl⟩ := stop_unique env split executed stopped' steps stopped
      exact ⟨⟨_, rfl⟩, nofun, fun _ _ => ⟨found, full⟩⟩
  | @missing _ _ words target lexed more =>
      rw [lexed, ← List.append_assoc] at split
      have stopped' : tokenStep env (state.1, words) .noFile = .error (.fault state.1) := rfl
      obtain ⟨-, rfl⟩ := stop_unique env split (stepTokens_trans env executed more) stopped' steps
        stopped
      exact ⟨⟨_, rfl⟩, fun _ => target, nofun⟩
  | @stops _ _ words _ _ _ operator lexed more failed =>
      rw [lexed, ← List.append_assoc] at split
      have stopped' := tokenStep_operator env operator state.1 words
      rw [failed] at stopped'
      obtain ⟨-, rfl⟩ := stop_unique env split (stepTokens_trans env executed more) stopped' steps
        stopped
      refine ⟨⟨_, rfl⟩, ?_, ?_⟩
      · rintro rfl
        cases operator
      · rintro word rfl
        cases operator
  | moves _ _ _ _ _ _ _ _ => exact absurd outcome (final _)

end OsTasks.Shell
