import OsTasks.Shell.Refine

/-!
# Lines and background commands

A translation of `process` and of the loop of `main` of `shell.c`. `process` looks for the `&`
that stand alone. It cuts the line there, and a child runs what stands before the cut with
`process_command`. The shell itself runs the last part.

A child in the background shares the world with the shell, but not its state. What it does to
the world is outside of the shell, as for any other program (`ShellEnv.background`). The
children are recorded with the state they start with (`Job`), so that what they run is
determined (`Job.run`).

`process_eq` says what `process` does without the buffer: it runs the `pieces` of the line.
-/

set_option autoImplicit false

namespace OsTasks.Shell

open OsTasks.Lib

variable {W : Type}

/-! ## Background children -/

/-- The system calls of the shell, with the children that run a part of a line. -/
structure ShellEnv (W : Type) extends Env W where
  /-- The world in which the shell goes on once such a child has been started. -/
  background : State W → Text → W

/-- A child in the background: a copy of the shell, and the string that `line` points to. -/
structure Job (W : Type) where
  state : State W
  line : Text

/-- The child: `process_command(line); exit(error);`. -/
def Job.run (env : Env W) (job : Job W) : Stop W :=
  match processCommand env job.state job.line with
  | .ok s => .exited s.error s
  | .error stop => stop

/-- What a line leaves behind: the children in the background, in the order in which they were
started, and the state of the shell unless the shell has stopped. -/
structure Outcome (W : Type) where
  jobs : List (Job W)
  result : Except (Stop W) (State W)

/-- The shell after it has started a child. -/
def State.started (env : ShellEnv W) (s : State W) (line : Text) : State W :=
  s.setOs fun os => { os with world := env.background s line }

/-! ## The loop of `process` -/

/-- The local variables of `process`. -/
structure Cut where
  mem : List Char
  line : Nat
  p : Nat

variable (env : ShellEnv W)

/-- One turn of the loop of `process`. After the last turn the shell runs the rest of the line
itself. When `fork` fails, `err` ends the shell. -/
def processTurn (state : State W × List (Job W) × Cut) :
    Except (Outcome W) ((State W × List (Job W) × Cut) ⊕ Outcome W) :=
  let (s, jobs, l) := state
  if peek l.mem l.p = nul then
    .ok (.inr ⟨jobs, processCommand env.toEnv s (cstring l.mem l.line)⟩)
  else
    let ch := peek l.mem l.p
    let ch2 := peek l.mem (l.p + 1)
    if ch = '&' ∧ ch2 = '&' then .ok (.inl (s, jobs, { l with p := l.p + 1 + 1 }))
    else if ch = '&' ∧ ch2 ≠ '&' then
      let mem := l.mem.set l.p nul
      let line := cstring mem l.line
      if !env.canFork s.os.world then .error ⟨jobs, .error (.exited 1 s)⟩
      else .ok (.inl (s.started env line, jobs ++ [⟨s, line⟩], ⟨mem, l.p + 1, l.p + 1⟩))
    else .ok (.inl (s, jobs, { l with p := l.p + 1 }))

/-- `process`. -/
def process (s : State W) (line : Text) : Outcome W :=
  match loop (processTurn env) (line.length + 1) (s, [], ⟨line ++ [nul], 0, 0⟩) with
  | some (.ok outcome) => outcome
  | some (.error outcome) => outcome
  | none => ⟨[], .error .spin⟩

/-! ## The loop of `main` -/

/-- The state in which the program starts: the static variables are 0. -/
def State.initial (os : Os W) : State W := ⟨os, 0, (some 0, some 0), false⟩

/-- Process lines one after the other. -/
def processLines (s : State W) : List Text → Outcome W
  | [] => ⟨[], .ok s⟩
  | line :: lines =>
      match process env s line with
      | ⟨jobs, .ok s⟩ => ⟨jobs ++ (processLines s lines).jobs, (processLines s lines).result⟩
      | ⟨jobs, .error stop⟩ => ⟨jobs, .error stop⟩

/-- `main` on the lines that `fgets` returns before the end of the input: how the process
stops. -/
def main (os : Os W) (lines : List Text) : Stop W :=
  match (processLines env (.initial os) lines).result with
  | .ok s => .exited s.error s
  | .error stop => stop

/-! ## The pieces of a line -/

/-- Put a text in front of the first piece. -/
def extend (text : Text) : List Text → List Text
  | [] => [text]
  | piece :: pieces => (text ++ piece) :: pieces

/-- The parts of a line between the `&` that stand alone when the others are paired from left
to right. -/
def pieces : Text → List Text
  | [] => [[]]
  | [c] => if c = '&' then [[], []] else [[c]]
  | c :: d :: text =>
      if c = '&' ∧ d = '&' then extend [c, d] (pieces text)
      else if c = '&' then [] :: pieces (d :: text)
      else extend [c] (pieces (d :: text))

/-- Run the pieces of a line: the last one in the shell itself, the others in children. -/
def runPieces (s : State W) (jobs : List (Job W)) : List Text → Outcome W
  | [] => ⟨jobs, .ok s⟩
  | [piece] => ⟨jobs, processCommand env.toEnv s piece⟩
  | piece :: next :: pieces =>
      if !env.canFork s.os.world then ⟨jobs, .error (.exited 1 s)⟩
      else runPieces (s.started env piece) (jobs ++ [⟨s, piece⟩]) (next :: pieces)

section Pieces

theorem pieces_ne_nil (line : Text) : pieces line ≠ [] := by
  have extended : ∀ (text : Text) (list : List Text), extend text list ≠ [] := by
    intro text list
    cases list <;> exact List.cons_ne_nil _ _
  fun_cases pieces line with
  | case1 => exact List.cons_ne_nil _ _
  | case2 => exact List.cons_ne_nil _ _
  | case3 => exact List.cons_ne_nil _ _
  | case4 => exact extended _ _
  | case5 => exact List.cons_ne_nil _ _
  | case6 => exact extended _ _

theorem extend_nil {list : List Text} (nonempty : list ≠ []) : extend [] list = list := by
  cases list with
  | nil => exact absurd rfl nonempty
  | cons piece list => rfl

theorem extend_extend (first second : Text) {list : List Text} (nonempty : list ≠ []) :
    extend first (extend second list) = extend (first ++ second) list := by
  cases list with
  | nil => exact absurd rfl nonempty
  | cons piece list => exact congrArg (· :: list) (List.append_assoc ..).symm

theorem pieces_pair (text : Text) :
    pieces ('&' :: '&' :: text) = extend ['&', '&'] (pieces text) := by
  rw [pieces, if_pos ⟨rfl, rfl⟩]

theorem pieces_single {text : Text} (single : text.head? ≠ some '&') :
    pieces ('&' :: text) = [] :: pieces text := by
  cases text with
  | nil => rfl
  | cons d text =>
      have other : d ≠ '&' := fun same => single (congrArg some same)
      rw [pieces, if_neg fun both => other both.2, if_pos rfl]

theorem pieces_other {c : Char} (other : c ≠ '&') (text : Text) :
    pieces (c :: text) = extend [c] (pieces text) := by
  cases text with
  | nil => exact if_neg other
  | cons d text => rw [pieces, if_neg fun both => other both.1, if_neg other]

/-- Induction over a line in the way in which `process` reads it. -/
@[elab_as_elim]
theorem pieces_induction {motive : Text → Prop} (nil : motive [])
    (pair : ∀ text, motive text → motive ('&' :: '&' :: text))
    (single : ∀ text, text.head? ≠ some '&' → motive text → motive ('&' :: text))
    (other : ∀ c text, c ≠ '&' → motive text → motive (c :: text)) (line : Text) : motive line := by
  induction size : line.length using Nat.strong_induction_on generalizing line with
  | _ n ih =>
      subst size
      cases line with
      | nil => exact nil
      | cons c text =>
          have next : motive text := ih text.length (Nat.lt_succ_self _) text rfl
          by_cases amp : c = '&'
          · subst amp
            by_cases double : text.head? = some '&'
            · cases text with
              | nil => cases double
              | cons d text =>
                  cases double
                  refine pair text (ih text.length ?_ text rfl)
                  simp only [List.length_cons]
                  omega
            · exact single text double next
          · exact other c text amp next

end Pieces

/-! ## `process` runs the pieces -/

section Loop

section Turns

variable {env} {s : State W} {jobs : List (Job W)} {l : Cut}

theorem processTurn_end (ends : peek l.mem l.p = nul) :
    processTurn env (s, jobs, l) =
      .ok (.inr ⟨jobs, processCommand env.toEnv s (cstring l.mem l.line)⟩) := by
  simp only [processTurn, if_pos ends]

theorem processTurn_pair (amp : peek l.mem l.p = '&') (double : peek l.mem (l.p + 1) = '&') :
    processTurn env (s, jobs, l) = .ok (.inl (s, jobs, { l with p := l.p + 1 + 1 })) := by
  have more : peek l.mem l.p ≠ nul := by
    rw [amp]
    decide
  simp only [processTurn, if_neg more, if_pos (And.intro amp double)]

theorem processTurn_cut (amp : peek l.mem l.p = '&') (single : peek l.mem (l.p + 1) ≠ '&') :
    processTurn env (s, jobs, l) =
      if !env.canFork s.os.world then .error ⟨jobs, .error (.exited 1 s)⟩
      else .ok (.inl (s.started env (cstring (l.mem.set l.p nul) l.line),
        jobs ++ [⟨s, cstring (l.mem.set l.p nul) l.line⟩],
        ⟨l.mem.set l.p nul, l.p + 1, l.p + 1⟩)) := by
  have more : peek l.mem l.p ≠ nul := by
    rw [amp]
    decide
  simp only [processTurn, if_neg more, if_neg fun both : _ ∧ _ => single both.2,
    if_pos (And.intro amp single)]

theorem processTurn_next (more : peek l.mem l.p ≠ nul) (other : peek l.mem l.p ≠ '&') :
    processTurn env (s, jobs, l) = .ok (.inl (s, jobs, { l with p := l.p + 1 })) := by
  simp only [processTurn, if_neg more, if_neg fun both : _ ∧ _ => other both.1]

end Turns

/-- The invariant of the loop: the present piece starts with `cur`, and `rest` is still to be
read. -/
structure Cutting (l : Cut) (cur rest : Text) : Prop where
  buffer : l.mem.drop l.line = cur ++ (rest ++ [nul])
  place : l.p = l.line + cur.length
  cleanCur : nul ∉ cur
  cleanRest : nul ∉ rest

theorem Cutting.suffix {l : Cut} {cur rest : Text} (cutting : Cutting l cur rest) :
    l.mem.drop l.p = rest ++ [nul] := by
  rw [cutting.place, ← List.drop_drop, cutting.buffer, List.drop_left]

/-- The string of the present piece, at the end of the line. -/
theorem Cutting.string_last {l : Cut} {cur : Text} (cutting : Cutting l cur []) :
    cstring l.mem l.line = cur := by
  have held : Held l.mem (l.line + cur.length + 1) l.line cur :=
    ⟨⟨[], cutting.buffer⟩, Nat.lt_succ_self _, cutting.cleanCur⟩
  exact held.cstring

/-- The string of the present piece, once NUL is written after it. -/
theorem Cutting.string_cut {l : Cut} {cur rest : Text} {c : Char}
    (cutting : Cutting l cur (c :: rest)) : cstring (l.mem.set l.p nul) l.line = cur := by
  have buffer : l.mem.drop l.line = cur ++ c :: (rest ++ [nul]) := cutting.buffer
  have held : Held (l.mem.set l.p nul) (l.p + 1) l.line cur := by
    refine ⟨⟨rest ++ [nul], ?_⟩, by rw [cutting.place]; omega, cutting.cleanCur⟩
    rw [cutting.place, List.drop_set, if_neg (by omega), buffer, Nat.add_sub_cancel_left,
      List.set_append_right _ _ (Nat.le_refl _), Nat.sub_self]
    rfl
  exact held.cstring

/-- What one turn does with the text from `p` on. -/
inductive CutTurn (s : State W) (jobs : List (Job W)) (l : Cut) (cur rest : Text) :
    Except (Outcome W) ((State W × List (Job W) × Cut) ⊕ Outcome W) → Prop where
  | ends : rest = [] →
      CutTurn s jobs l cur rest (.ok (.inr ⟨jobs, processCommand env.toEnv s cur⟩))
  /-- Characters of the present piece. -/
  | moves {read rest' : Text} : read ≠ [] → rest = read ++ rest' →
      pieces rest = extend read (pieces rest') →
        Cutting { l with p := l.p + read.length } (cur ++ read) rest' →
          CutTurn s jobs l cur rest (.ok (.inl (s, jobs, { l with p := l.p + read.length })))
  /-- The piece ends here, and the next one starts after the character. -/
  | cuts {rest' : Text} : env.canFork s.os.world = true → rest = '&' :: rest' →
      rest'.head? ≠ some '&' → pieces rest = [] :: pieces rest' →
        Cutting ⟨l.mem.set l.p nul, l.p + 1, l.p + 1⟩ [] rest' →
          CutTurn s jobs l cur rest (.ok (.inl (s.started env cur, jobs ++ [⟨s, cur⟩],
            ⟨l.mem.set l.p nul, l.p + 1, l.p + 1⟩)))
  | fails {rest' : Text} : env.canFork s.os.world = false → pieces rest = [] :: pieces rest' →
      CutTurn s jobs l cur rest (.error ⟨jobs, .error (.exited 1 s)⟩)

theorem processTurn_turn {l : Cut} {cur rest : Text} (cutting : Cutting l cur rest) (s : State W)
    (jobs : List (Job W)) : CutTurn env s jobs l cur rest (processTurn env (s, jobs, l)) := by
  have suffix := cutting.suffix
  have ⟨buffer, place, cleanCur, cleanRest⟩ := cutting
  have ch := peek_eq suffix
  have ch2 := peek_succ_eq suffix
  cases rest with
  | nil =>
      rw [processTurn_end ch, cutting.string_last]
      exact .ends rfl
  | cons c rest =>
      have other : c ≠ nul := fun same => cleanRest (same ▸ List.mem_cons_self)
      have cleanTail : nul ∉ rest := fun member => cleanRest (List.mem_cons_of_mem _ member)
      rw [List.headD_cons] at ch
      rw [List.tail_cons] at ch2
      by_cases amp : c = '&'
      · subst amp
        by_cases double : rest.head? = some '&'
        · -- A pair: both characters belong to the present piece.
          obtain ⟨rest, rfl⟩ : ∃ after, rest = '&' :: after := by
            cases rest with
            | nil => cases double
            | cons d after => exact ⟨after, congrArg (· :: after) (Option.some.inj double)⟩
          rw [processTurn_pair ch ch2]
          refine .moves (List.cons_ne_nil '&' ['&']) rfl (pieces_pair rest)
            ⟨by simpa using buffer, ?_, ?_, fun member => cleanTail (List.mem_cons_of_mem _ member)⟩
          · simp only [place, List.length_append, List.length_cons, List.length_nil]
            omega
          · simp only [List.mem_append, cleanCur, false_or]
            decide
        · have single : peek l.mem (l.p + 1) ≠ '&' := by
            rw [ch2]
            exact mt (headD_eq (by decide)).mp double
          rw [processTurn_cut ch single, cutting.string_cut]
          cases forks : env.canFork s.os.world with
          | false => exact .fails forks (pieces_single double)
          | true =>
              have after : (l.mem.set l.p nul).drop (l.p + 1) = rest ++ [nul] := by
                rw [List.drop_set, if_pos (Nat.lt_succ_self _), ← List.drop_drop, suffix]
                rfl
              exact .cuts forks rfl double (pieces_single double) ⟨after, rfl, by simp, cleanTail⟩
      · rw [processTurn_next (ch ▸ other) (ch ▸ amp)]
        refine .moves (List.cons_ne_nil c []) rfl (pieces_other amp rest)
          ⟨by simpa using buffer, ?_, ?_, cleanTail⟩
        · simp only [place, List.length_append, List.length_singleton]
          omega
        · simp only [List.mem_append, List.mem_singleton, not_or]
          exact ⟨cleanCur, other.symm⟩

theorem extend_cut (cur : Text) (list : List Text) : extend cur ([] :: list) = cur :: list := by
  rw [extend, List.append_nil]

/-- The loop from the place `p` on, when the present piece starts with `cur`. -/
theorem loop_process (fuel : Nat) :
    ∀ (rest cur : Text) (s : State W) (jobs : List (Job W)) (l : Cut),
    rest.length < fuel → Cutting l cur rest →
      ∃ result, loop (processTurn env) fuel (s, jobs, l) = some result ∧
        (result = .ok (runPieces env s jobs (extend cur (pieces rest))) ∨
          result = .error (runPieces env s jobs (extend cur (pieces rest)))) := by
  induction fuel with
  | zero => omega
  | succ fuel ih =>
      intro rest cur s jobs l enough cutting
      have turn := processTurn_turn env cutting s jobs
      generalize result : processTurn env (s, jobs, l) = outcome at turn
      cases turn with
      | ends empty =>
          subst empty
          refine ⟨_, loop_done result, .inl ?_⟩
          rw [pieces, extend, runPieces, List.append_nil]
      | @moves read rest' some split more cutting' =>
          have shorter : rest'.length < fuel := by
            have positive := List.length_pos_iff.mpr some
            rw [split, List.length_append] at enough
            omega
          rw [more, extend_extend _ _ (pieces_ne_nil rest'), loop_again result]
          exact ih rest' (cur ++ read) s jobs _ shorter cutting'
      | @cuts rest' forks split _ more cutting' =>
          have shorter : rest'.length < fuel := by
            rw [split, List.length_cons] at enough
            omega
          have later := ih rest' [] (s.started env cur) (jobs ++ [⟨s, cur⟩]) _ shorter cutting'
          rw [extend_nil (pieces_ne_nil rest')] at later
          rw [more, extend_cut, loop_again result]
          cases others : pieces rest' with
          | nil => exact absurd others (pieces_ne_nil rest')
          | cons next pieces =>
              rw [others] at later
              rw [runPieces, forks]
              exact later
      | @fails rest' forks more =>
          rw [more, extend_cut, loop_fault result]
          cases others : pieces rest' with
          | nil => exact absurd others (pieces_ne_nil rest')
          | cons next pieces =>
              rw [runPieces, forks]
              exact ⟨_, rfl, .inr rfl⟩

theorem cutting_start {line : Text} (clean : nul ∉ line) :
    Cutting ⟨line ++ [nul], 0, 0⟩ [] line := ⟨rfl, rfl, by simp, clean⟩

/-- **`process` runs the pieces of the line**, all but the last in children. -/
theorem process_eq (s : State W) {line : Text} (clean : nul ∉ line) :
    process env s line = runPieces env s [] (pieces line) := by
  have ran := loop_process env (line.length + 1) line [] s [] ⟨line ++ [nul], 0, 0⟩
    (Nat.lt_succ_self _) (cutting_start clean)
  rw [extend_nil (pieces_ne_nil line)] at ran
  unfold process
  obtain ⟨result, left, rfl | rfl⟩ := ran
  · rw [left]
  · rw [left]

end Loop

/-- The small world, in which a child in the background changes nothing. -/
def sampleShell : ShellEnv (List Text) := { sampleEnv with background := fun s _ => s.os.world }

end OsTasks.Shell
