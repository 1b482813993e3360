import OsTasks.Shell.Process
import OsTasks.Shell.Spelling
import OsTasks.Shell.Visited

/-!
# Bounds of the buffers

The line is read into an array of 1000 characters, and the words of a command into an array of
100 pointers. Every access should stay inside of them (`InBounds`).

There are two ways out. A command with 100 words or more is written past the end of `args`. And
`process_command` looks at the character after the delimiter before it knows what the delimiter
is: when that is the NUL of a line that fills the buffer, it reads one place too far.
`inBounds_iff` says that there are no others.
-/

set_option autoImplicit false

namespace OsTasks.Shell

open OsTasks.Lib

variable {W : Type}

/-! ## Accesses -/

/-- The size of the array `line`. -/
def lineSize : Nat := 1000

/-- The places of the line that a turn of `process_command` reads or writes: in the test of the
loop; in `parseword`, for `ch` and for `ch2`; and in `parseword` for the name of a file. -/
def Line.Touches (l : Line) (i : Nat) : Prop :=
  let (word, p) := parseword l.mem l.p
  i = l.p ∨
    (peek l.mem l.p ≠ nul ∧
      ((l.p ≤ i ∧ i ≤ p + 1) ∨
        ((word = none ∨ l.narg + 1 < maxArgs) ∧ (peek l.mem p = '>' ∨ peek l.mem p = '<') ∧
          p + 1 ≤ i ∧ i ≤ (parseword (l.mem.set p nul) (p + 1)).2)))

/-- The places of `args` that a turn stores to: the first one, and two for a word. -/
def Line.Stores (l : Line) (i : Nat) : Prop :=
  i = 0 ∨ (peek l.mem l.p ≠ nul ∧ (parseword l.mem l.p).1 ≠ none ∧
    (i = l.narg ∨ i = l.narg + 1))

/-- The places of the line that a turn of `process` reads or writes. -/
def Cut.Touches (l : Cut) (i : Nat) : Prop := i = l.p ∨ (peek l.mem l.p ≠ nul ∧ i = l.p + 1)

variable (env : ShellEnv W)

/-- The state in which `process` starts. -/
def processStart (s : State W) (line : Text) : State W × List (Job W) × Cut :=
  (s, [], ⟨line ++ [nul], 0, 0⟩)

/-- `process` calls `process_command` in the state `s'`, in a child or in the shell itself, for the
string `piece` at the place `base` of the line. -/
def Calls (s : State W) (line : Text) (s' : State W) (base : Nat) (piece : Text) : Prop :=
  ∃ jobs l, Visits (processTurn env) (processStart s line) (s', jobs, l) ∧ base = l.line ∧
    ((peek l.mem l.p = nul ∧ piece = cstring l.mem l.line) ∨
      (peek l.mem l.p = '&' ∧ peek l.mem (l.p + 1) ≠ '&' ∧ env.canFork s'.os.world = true ∧
        piece = cstring (l.mem.set l.p nul) l.line))

/-- Every access to the line and every store to `args` stays inside the array. -/
structure InBounds (s : State W) (line : Text) : Prop where
  process : ∀ s' jobs l, Visits (processTurn env) (processStart s line) (s', jobs, l) →
    ∀ i, l.Touches i → i < lineSize
  command : ∀ s' base piece, Calls env s line s' base piece → ∀ state,
    Visits (scanTurn env.toEnv) (scanStart s' piece) state →
      (∀ i, state.2.Touches i → base + i < lineSize) ∧ ∀ i, state.2.Stores i → i < maxArgs

/-! ## The condition -/

/-- The calls of `process_command` for the pieces of a line: the state, the place and the string. -/
def pieceCalls (s : State W) (base : Nat) : List Text → List (State W × Nat × Text)
  | [] => []
  | [piece] => [(s, base, piece)]
  | piece :: next :: pieces =>
      if env.canFork s.os.world then
        (s, base, piece) ::
          pieceCalls (s.started env piece) (base + piece.length + 1) (next :: pieces)
      else []

/-- Where the shell comes to a word, the present command has fewer than 99 words. -/
def WordsFit (env : Env W) (s : State W) (piece : Text) : Prop :=
  ∀ before word after s₁ args, tokens piece = before ++ .word word :: after →
    stepTokens env (s.start, []) before = .ok (s₁, args) → args.length + 1 < maxArgs

/-- The last `parseword` for a word of a command, blanks included, comes to the end of the text. -/
def EndsInWord (piece : Text) : Prop :=
  stopsAtOnce piece = false ∧
    ∃ rest, Leads piece rest ∧ rest.headD nul ≠ nul ∧ (lexWord rest).2 = []

/-- The words of every command fit into `args`; and where the last piece fills the buffer, its end
is not reached by a `parseword` for a word, or the shell stops before. -/
def LineFits (s : State W) (line : Text) : Prop :=
  ∀ s' base piece, (s', base, piece) ∈ pieceCalls env s 0 (pieces line) →
    WordsFit env.toEnv s' piece ∧
      (base + piece.length + 1 = lineSize → EndsInWord piece →
        ∃ stop, stepTokens env.toEnv (s'.start, []) (tokens piece) = .error stop)

/-! ## The turns of `process_command` -/

section Turns

variable {l : Line} {rest : Text} {args : List Text}

/-- A turn touches the line up to its NUL, and one place more when a word ends there. -/
theorem touches_le (scanned : Scanned l rest args) {n : Nat} (size : l.mem.length = n + 1) {i : Nat}
    (touches : l.Touches i) :
    i ≤ n ∨ (i = n + 1 ∧ rest.headD nul ≠ nul ∧ (lexWord rest).2 = []) := by
  have suffix := scanned.suffix
  obtain ⟨-, after⟩ := drop_parseword suffix
  have place := place_of_suffix suffix size
  have ends := place_of_suffix after size
  simp only [Line.Touches] at touches
  rw [parseword_eq suffix, peek_eq suffix, peek_eq after] at touches
  generalize l.p + gap rest + (lexWord rest).1.length = d at *
  rcases touches with rfl | ⟨more, ⟨-, less⟩ | ⟨-, sign, -, less⟩⟩
  · exact .inl (by omega)
  · cases delimiter : (lexWord rest).2 with
    | nil =>
        rw [delimiter, List.length_nil] at ends
        by_cases beyond : i = n + 1
        · exact .inr ⟨beyond, more, rfl⟩
        · exact .inl (by omega)
    | cons c text =>
        rw [delimiter, List.length_cons] at ends
        exact .inl (by omega)
  · cases delimiter : (lexWord rest).2 with
    | nil =>
        rw [delimiter] at sign
        rcases sign with sign | sign <;> cases sign
    | cons c text =>
        rw [delimiter] at after
        have file := file_le after size
        exact .inl (less.trans file)

theorem touches_end (scanned : Scanned l rest args) {n : Nat} (size : l.mem.length = n + 1)
    (more : rest.headD nul ≠ nul) (ends : (lexWord rest).2 = []) : l.Touches (n + 1) := by
  have suffix := scanned.suffix
  have place := place_of_suffix suffix size
  have last := place_of_suffix (drop_parseword suffix).2 size
  rw [ends, List.length_nil] at last
  simp only [Line.Touches]
  rw [parseword_eq suffix, peek_eq suffix]
  exact .inr ⟨more, .inl ⟨by omega, by dsimp only; omega⟩⟩

theorem more_of_word (word : (lexWord rest).1 ≠ []) : rest.headD nul ≠ nul := by
  intro ends
  cases rest with
  | nil => exact word rfl
  | cons c rest =>
      obtain rfl : c = nul := ends
      exact word rfl

theorem stores_iff (scanned : Scanned l rest args) (i : Nat) : l.Stores i ↔
    i = 0 ∨ ((lexWord rest).1 ≠ [] ∧ (i = args.length ∨ i = args.length + 1)) := by
  obtain ⟨suffix, words, collected⟩ := scanned
  rw [Line.Stores, peek_eq suffix, parseword_eq suffix, collected.length]
  dsimp only
  refine or_congr_right ?_
  by_cases word : (lexWord rest).1 = []
  · simp [word]
  · rw [if_neg word]
    constructor
    · rintro ⟨-, -, stored⟩
      exact ⟨word, stored⟩
    · rintro ⟨-, stored⟩
      exact ⟨more_of_word word, Option.some_ne_none _, stored⟩

end Turns

/-! ## The turns of `process` -/

theorem pieceCalls_cons (s : State W) (base : Nat) (piece : Text) {list : List Text}
    (more : list ≠ []) : pieceCalls env s base (piece :: list) =
      if env.canFork s.os.world then
        (s, base, piece) :: pieceCalls env (s.started env piece) (base + piece.length + 1) list
      else [] := by
  cases list with
  | nil => exact absurd rfl more
  | cons next pieces => rfl

/-- The calls that are still to come when the loop of `process` has come to a state. -/
theorem visits_cutting {s : State W} {line : Text} (clean : nul ∉ line)
    {state : State W × List (Job W) × Cut}
    (visits : Visits (processTurn env) (processStart s line) state) :
    ∃ cur rest, Cutting state.2.2 cur rest ∧ state.2.2.mem.length = line.length + 1 ∧
      pieceCalls env state.1 state.2.2.line (extend cur (pieces rest)) <:+
        pieceCalls env s 0 (pieces line) := by
  induction visits with
  | start =>
      refine ⟨[], line, cutting_start clean, by simp [processStart], ?_⟩
      rw [extend_nil (pieces_ne_nil line)]
      exact List.suffix_rfl
  | @turn state next _ turned ih =>
      obtain ⟨cur, rest, cutting, size, coming⟩ := ih
      obtain ⟨s', jobs, l⟩ := state
      have turn := processTurn_turn env cutting s' jobs
      rw [turned] at turn
      generalize outcome : Except.ok (Sum.inl next) = result at turn
      cases turn with
      | ends _ => cases outcome
      | fails _ _ => cases outcome
      | @moves read rest' _ _ more cutting' =>
          cases outcome
          refine ⟨cur ++ read, rest', cutting', size, ?_⟩
          rw [more, extend_extend _ _ (pieces_ne_nil rest')] at coming
          exact coming
      | @cuts rest' forks _ _ more cutting' =>
          cases outcome
          refine ⟨[], rest', cutting', by simpa using size, ?_⟩
          have place : l.p = l.line + cur.length := cutting.place
          rw [more, extend_cut, pieceCalls_cons env s' _ cur (pieces_ne_nil rest'), if_pos forks,
            ← place] at coming
          rw [extend_nil (pieces_ne_nil rest')]
          exact (List.suffix_cons _ _).trans coming

/-- The calls that are to come are made. -/
theorem calls_of_visits {s : State W} {line : Text} {call : State W × Nat × Text} {rest : Text} :
    ∀ {cur : Text} {s' : State W} {jobs : List (Job W)} {l : Cut}, Cutting l cur rest →
      Visits (processTurn env) (processStart s line) (s', jobs, l) →
        call ∈ pieceCalls env s' l.line (extend cur (pieces rest)) →
          Calls env s line call.1 call.2.1 call.2.2 := by
  induction length : rest.length using Nat.strongRecOn generalizing rest with
  | _ n ih =>
      subst length
      intro cur s' jobs l cutting visits member
      have turn := processTurn_turn env cutting s' jobs
      have suffix := cutting.suffix
      generalize turned : processTurn env (s', jobs, l) = result at turn
      cases turn with
      | ends empty =>
          subst empty
          rw [pieces, extend, List.append_nil] at member
          cases List.mem_singleton.mp member
          exact ⟨jobs, l, visits, rfl, .inl ⟨peek_eq suffix, cutting.string_last.symm⟩⟩
      | @moves read rest' some split more cutting' =>
          have shorter : rest'.length < rest.length := by
            have positive := List.length_pos_iff.mpr some
            rw [split, List.length_append]
            omega
          rw [more, extend_extend _ _ (pieces_ne_nil rest')] at member
          exact ih _ shorter rfl cutting' (visits.turn turned) member
      | @cuts rest' forks split single more cutting' =>
          subst split
          have place : l.p = l.line + cur.length := cutting.place
          rw [more, extend_cut, pieceCalls_cons env s' _ cur (pieces_ne_nil rest'), if_pos forks,
            ← place] at member
          rcases List.mem_cons.mp member with rfl | later
          · have next : peek l.mem (l.p + 1) ≠ '&' := by
              rw [peek_succ_eq suffix]
              exact mt (headD_eq (by decide)).mp single
            exact ⟨jobs, l, visits, rfl,
              .inr ⟨peek_eq suffix, next, forks, cutting.string_cut.symm⟩⟩
          · rw [← extend_nil (pieces_ne_nil rest')] at later
            exact ih _ (Nat.lt_succ_self _) rfl cutting' (visits.turn turned) later
      | @fails rest' forks more =>
          rw [more, extend_cut, pieceCalls_cons env s' _ cur (pieces_ne_nil rest'), forks] at member
          cases member

/-- A call is one for a piece of the line, which it stays inside of. -/
theorem pieceCalls_of_calls {s s' : State W} {line piece : Text} {base : Nat} (clean : nul ∉ line)
    (calls : Calls env s line s' base piece) :
    (s', base, piece) ∈ pieceCalls env s 0 (pieces line) ∧ base + piece.length ≤ line.length := by
  obtain ⟨jobs, l, visits, rfl, called⟩ := calls
  obtain ⟨cur, rest, cutting, size, coming⟩ := visits_cutting env clean visits
  have suffix := cutting.suffix
  have whole : l.mem.drop l.line = (cur ++ rest) ++ [nul] := by
    rw [cutting.buffer, List.append_assoc]
  have inside := place_of_suffix whole size
  rw [List.length_append] at inside
  cases rest with
  | nil =>
      rcases called with ⟨-, rfl⟩ | ⟨amp, -⟩
      · rw [cutting.string_last]
        refine ⟨coming.subset ?_, by omega⟩
        rw [pieces, extend, List.append_nil]
        exact List.mem_singleton_self _
      · rw [peek_eq suffix] at amp
        cases amp
  | cons c rest =>
      rcases called with ⟨ends, -⟩ | ⟨amp, single, forks, rfl⟩
      · rw [peek_eq suffix] at ends
        exact absurd (ends ▸ List.mem_cons_self) cutting.cleanRest
      · rw [peek_eq suffix] at amp
        obtain rfl : c = '&' := amp
        have next : rest.head? ≠ some '&' := by
          rw [peek_succ_eq suffix] at single
          exact mt (headD_eq (by decide)).mpr single
        rw [cutting.string_cut]
        refine ⟨coming.subset ?_, by omega⟩
        rw [pieces_single next, extend_cut, pieceCalls_cons env s' _ cur (pieces_ne_nil rest),
          if_pos forks]
        exact List.mem_cons_self

theorem calls_of_pieceCalls {s : State W} {line : Text} (clean : nul ∉ line) {s' : State W}
    {base : Nat} {piece : Text} (member : (s', base, piece) ∈ pieceCalls env s 0 (pieces line)) :
    Calls env s line s' base piece := by
  rw [← extend_nil (pieces_ne_nil line)] at member
  exact calls_of_visits env (cutting_start clean) .start member

/-! ## One call of `process_command` -/

section Command

variable {env : Env W} {s : State W} {piece : Text}

/-- The accesses of a call, for a string at the place `base`. -/
def CommandInBounds (env : Env W) (s : State W) (base : Nat) (piece : Text) : Prop :=
  ∀ state, Visits (scanTurn env) (scanStart s piece) state →
    (∀ i, state.2.Touches i → base + i < lineSize) ∧ ∀ i, state.2.Stores i → i < maxArgs

theorem wordsFit_of_inBounds {base : Nat} (bounds : CommandInBounds env s base piece) :
    WordsFit env s piece := by
  intro before word after s₁ args split steps
  by_contra full
  obtain ⟨state, rest, args', visits, reached, -, -, found⟩ :=
    exists_stop env split steps (tokenStep_full env s₁ full word)
  obtain ⟨isWord, full'⟩ := found word rfl
  have stores := (stores_iff reached.scanned (args'.length + 1)).mpr (.inr ⟨isWord, .inr rfl⟩)
  exact full' ((bounds state visits).2 _ stores)

/-- A text at which the last turn starts. -/
theorem no_follows {rest : Text} (last : rest.headD nul = nul ∨ nextText (lexWord rest).2 = none)
    (rest' : Text) : ¬ Follows rest rest' := by
  rintro ⟨more, follows⟩
  rcases last with ends | none
  · exact more ends
  · rw [none] at follows
    cases follows

theorem stops_of_inBounds {base : Nat} (bounds : CommandInBounds env s base piece)
    (full : base + piece.length + 1 = lineSize) (ends : EndsInWord piece) :
    ∃ stop, stepTokens env (s.start, []) (tokens piece) = .error stop := by
  obtain ⟨starts, rest₀, leads₀, more, empty⟩ := ends
  cases steps : stepTokens env (s.start, []) (tokens piece) with
  | error stop => exact ⟨stop, rfl⟩
  | ok next =>
      obtain ⟨state, rest, args, visits, reached, final⟩ := exists_last env (s := s) starts
      obtain ⟨done, read, executed⟩ := reached.executed
      rw [tokens_eq_lex starts, read] at steps
      have turn := reached.turn
      generalize outcome : scanTurn env state = result at turn
      cases turn with
      | ends last _ =>
          have none : nextText (lexWord rest₀).2 = none := by
            rw [empty]
            rfl
          obtain rfl : rest = rest₀ := leads_last reached.leads leads₀ (no_follows last)
            (no_follows (.inr none))
          have touches := touches_end reached.scanned reached.size more empty
          have less := (bounds state visits).1 _ touches
          omega
      | full _ full lexed =>
          rw [lexed, stepTokens_stops env executed (tokenStep_full env state.1 full _)] at steps
          cases steps
      | @missing _ _ words _ lexed more =>
          have stopped : tokenStep env (state.1, words) .noFile = .error (.fault state.1) := rfl
          rw [lexed, ← List.append_assoc,
            stepTokens_stops env (stepTokens_trans env executed more) stopped] at steps
          cases steps
      | @stops _ _ words _ _ _ operator lexed more failed =>
          have stopped := tokenStep_operator env operator state.1 words
          rw [failed] at stopped
          rw [lexed, ← List.append_assoc,
            stepTokens_stops env (stepTokens_trans env executed more) stopped] at steps
          cases steps
      | moves _ _ _ _ _ _ _ _ => exact absurd outcome (final _)

/-- A line that is ignored because of its first character stays in bounds. -/
theorem inBounds_ignored {base : Nat} (inside : base + piece.length < lineSize)
    (starts : stopsAtOnce piece = true) : CommandInBounds env s base piece := by
  intro state visits
  have small : ∀ i, i = 0 → base + i < lineSize ∧ i < maxArgs := by
    rintro i rfl
    exact ⟨by omega, by decide⟩
  obtain ⟨lexed, -, more, -⟩ := lexWord_ignored starts
  rcases visits_ignored env starts visits with rfl | ⟨first, written, -⟩
  · have scanned := scanned_start piece
    have size : (piece ++ [nul]).length = piece.length + 1 := List.length_append
    refine ⟨fun i touches => ?_, fun i stores => ?_⟩
    · rcases touches_le scanned size touches with least | ⟨-, -, empty⟩
      · omega
      · rw [lexed] at empty
        rw [show piece = [] from empty] at more
        exact absurd rfl more
    · rcases (stores_iff scanned i).mp stores with zero | ⟨word, -⟩
      · exact (small i zero).2
      · rw [lexed] at word
        exact absurd rfl word
  · refine ⟨fun i touches => ?_, fun i stores => ?_⟩
    · rcases touches with here | ⟨more, -⟩
      · exact (small i (here.trans first)).1
      · exact absurd written more
    · rcases stores with zero | ⟨more, -⟩
      · exact (small i zero).2
      · exact absurd written more

theorem inBounds_of_fits {base : Nat} (inside : base + piece.length < lineSize)
    (fit : WordsFit env s piece)
    (stops : base + piece.length + 1 = lineSize → EndsInWord piece →
      ∃ stop, stepTokens env (s.start, []) (tokens piece) = .error stop) :
    CommandInBounds env s base piece := by
  cases starts : stopsAtOnce piece with
  | true => exact inBounds_ignored inside starts
  | false =>
      intro state visits
      obtain ⟨rest, args, reached⟩ := visits_reached env starts visits
      obtain ⟨done, read, executed⟩ := reached.executed
      rw [← tokens_eq_lex starts] at read
      -- A word that the scanner comes to has a place in `args`.
      have room : (lexWord rest).1 ≠ [] → args.length + 1 < maxArgs := by
        intro word
        have lexed := lex_eq rest
        rw [wordToken, if_neg word, List.singleton_append] at lexed
        rw [lexed] at read
        exact fit _ _ _ _ _ read executed
      refine ⟨fun i touches => ?_, fun i stores => ?_⟩
      · rcases touches_le reached.scanned reached.size touches with least | ⟨rfl, more, empty⟩
        · omega
        · by_contra beyond
          obtain ⟨stop, stopped⟩ := stops (by omega) ⟨starts, rest, reached.leads, more, empty⟩
          have fits : (lexWord rest).1 = [] ∨ args.length + 1 < maxArgs :=
            (Decidable.em _).imp_right room
          have lexed := lex_eq rest
          rw [empty, show lexDelimiter lex [] = [] from rfl, List.append_nil] at lexed
          rw [read, lexed,
            stepTokens_trans env executed (stepTokens_word env state.1 fits)] at stopped
          cases stopped
      · rcases (stores_iff reached.scanned i).mp stores with rfl | ⟨word, last⟩
        · decide
        · have less := room word
          omega

end Command

/-! ## The whole line -/

/-- **Bounds of the buffers.** For a line that `fgets` can deliver, the accesses to the line and
the stores to `args` stay inside the arrays exactly when the words of every command fit into
`args`, and no word ends at the NUL of a line that fills the buffer, as far as the shell comes. -/
theorem inBounds_iff (env : ShellEnv W) (s : State W) (line : Text) (clean : nul ∉ line)
    (delivered : line.length < lineSize) : InBounds env s line ↔ LineFits env s line := by
  constructor
  · intro bounds s' base piece member
    have command : CommandInBounds env.toEnv s' base piece :=
      bounds.command s' base piece (calls_of_pieceCalls env clean member)
    exact ⟨wordsFit_of_inBounds command, stops_of_inBounds command⟩
  · intro fits
    refine ⟨fun s' jobs l visits i touches => ?_, fun s' base piece calls => ?_⟩
    · obtain ⟨cur, rest, cutting, size, -⟩ := visits_cutting env clean visits
      have suffix := cutting.suffix
      have place : l.p + rest.length = line.length := place_of_suffix suffix size
      rcases touches with rfl | ⟨more, rfl⟩
      · omega
      · rw [peek_eq suffix] at more
        cases rest with
        | nil => exact absurd rfl more
        | cons c rest =>
            rw [List.length_cons] at place
            omega
    · obtain ⟨member, inside⟩ := pieceCalls_of_calls env clean calls
      obtain ⟨fit, stops⟩ := fits s' base piece member
      exact inBounds_of_fits (by omega) fit stops

/-- Short words, a long one and a newline. -/
def longCommand (n : Nat) : Text :=
  (List.replicate n "a ".toList).flatten ++ (List.replicate 802 'a' ++ ['\n'])

theorem lexWord_longCommand (n : Nat) :
    lexWord (longCommand (n + 1)) = ("a".toList, ' ' :: longCommand n) :=
  @lexWord_word "a".toList (' ' :: longCommand n) (by decide) rfl

theorem lexWord_lastWord : lexWord (longCommand 0) = (List.replicate 802 'a', ['\n']) := by
  refine @lexWord_word (List.replicate 802 'a') ['\n'] ⟨?_, fun c member => ?_, rfl⟩ rfl
  · exact List.ne_nil_of_length_pos (by rw [List.length_replicate]; decide)
  · rw [List.eq_of_mem_replicate member]
    rfl

/-- The scanner comes from one word to the next. -/
theorem longCommand_leads {n : Nat} {rest : Text} (leads : Leads (longCommand n) rest) :
    ∃ k, rest = longCommand k := by
  induction leads with
  | refl => exact ⟨n, rfl⟩
  | tail _ follows ih =>
      obtain ⟨k, rfl⟩ := ih
      obtain ⟨-, next⟩ := follows
      cases k with
      | zero =>
          rw [lexWord_lastWord] at next
          cases next
      | succ k =>
          rw [lexWord_longCommand] at next
          exact ⟨k, (Option.some.inj next).symm⟩

/-- The newline ends the last word. -/
theorem longCommand_ends (n : Nat) : ¬ EndsInWord (longCommand n) := by
  rintro ⟨-, rest, leads, -, ends⟩
  obtain ⟨k, rfl⟩ := longCommand_leads leads
  cases k with
  | zero =>
      rw [lexWord_lastWord] at ends
      cases ends
  | succ k =>
      rw [lexWord_longCommand] at ends
      cases ends

/-- A command of 99 words in a line of 999 characters, which ends with a newline. -/
theorem inBounds_longCommand :
    (nul ∉ longCommand 98 ∧ (longCommand 98).length < lineSize) ∧
      LineFits sampleShell sampleState (longCommand 98) ∧
        InBounds sampleShell sampleState (longCommand 98) := by
  have clean : nul ∉ longCommand 98 := by decide +kernel
  have delivered : (longCommand 98).length < lineSize := by decide +kernel
  have whole : pieces (longCommand 98) = [longCommand 98] := by decide +kernel
  have read : tokens (longCommand 98) =
      (List.replicate 98 "a".toList ++ [List.replicate 802 'a']).map .word := by decide +kernel
  have fits : LineFits sampleShell sampleState (longCommand 98) := by
    intro s' base piece member
    rw [whole] at member
    cases List.mem_singleton.mp member
    refine ⟨fun before word after s₁ args split steps => ?_, fun _ ends =>
      absurd ends (longCommand_ends 98)⟩
    rw [read] at split
    obtain ⟨words, rest, all, rfl, more⟩ := List.map_eq_append_iff.mp split
    have some : rest ≠ [] := by
      rintro rfl
      cases more
    have few : words.length < 99 := by
      have length := congrArg List.length all
      have positive := List.length_pos_iff.mpr some
      rw [List.length_append, List.length_append, List.length_replicate,
        List.length_singleton] at length
      omega
    have room : ([] : List Text).length + words.length < maxArgs := by
      rw [List.length_nil, maxArgs]
      omega
    rw [stepTokens_words sampleShell.toEnv sampleState.start [] words room] at steps
    cases steps
    rw [List.nil_append, maxArgs]
    omega
  exact ⟨⟨clean, delivered⟩, fits,
    (inBounds_iff sampleShell sampleState _ clean delivered).mpr fits⟩

/-- A command of 100 words. -/
def manyWords : Text := (List.replicate 100 "a ".toList).flatten

/-- A word that fills the buffer. -/
def fullLine : Text := List.replicate 999 'a'

theorem sampleCalls_of_whole {line : Text} (clean : nul ∉ line) (whole : pieces line = [line]) :
    Calls sampleShell sampleState line sampleState 0 line := by
  refine calls_of_pieceCalls sampleShell clean ?_
  rw [whole]
  exact List.mem_singleton_self _

/-- The 100th word is stored past the end of `args`, and the character after the NUL of a line of
999 characters is read. -/
theorem buffers_overrun :
    (nul ∉ manyWords ∧ manyWords.length < lineSize ∧
      ¬ InBounds sampleShell sampleState manyWords) ∧
        nul ∉ fullLine ∧ fullLine.length < lineSize ∧
          ¬ InBounds sampleShell sampleState fullLine := by
  have cleanMany : nul ∉ manyWords := by decide
  have cleanFull : nul ∉ fullLine := by
    intro member
    cases List.eq_of_mem_replicate member
  refine ⟨⟨cleanMany, by decide +kernel, fun bounds => ?_⟩, cleanFull,
    List.length_replicate.trans_lt (by decide), fun bounds => ?_⟩
  · have read : tokens manyWords =
        List.replicate 99 (.word "a".toList) ++ .word "a".toList :: [] := by decide +kernel
    have calls := sampleCalls_of_whole cleanMany (by decide +kernel)
    have fit := wordsFit_of_inBounds (bounds.command _ _ _ calls)
    have steps := stepTokens_words sampleEnv sampleState.start [] (List.replicate 99 "a".toList)
      (by rw [List.length_replicate]; decide)
    rw [List.map_replicate, List.nil_append] at steps
    have less := fit _ _ _ _ _ read steps
    rw [List.length_replicate] at less
    exact absurd less (by decide)
  · have whole : ∀ n, pieces (List.replicate n 'a') = [List.replicate n 'a'] := by
      intro n
      induction n with
      | zero => rfl
      | succ n ih =>
          rw [List.replicate_succ, pieces_other (by decide), ih]
          rfl
    have isWord : IsWord fullLine := by
      refine ⟨List.cons_ne_nil _ _, fun c member => ?_, rfl⟩
      rw [List.eq_of_mem_replicate member]
      rfl
    have lexed : lexWord (fullLine ++ []) = (fullLine, []) := lexWord_word isWord rfl
    rw [List.append_nil] at lexed
    have starts : stopsAtOnce fullLine = false := rfl
    have read : tokens fullLine = [.word fullLine] := by
      have words : lex (fullLine ++ []) = .word fullLine :: lex [] := lex_word isWord trivial
      rw [List.append_nil] at words
      rw [tokens_eq_lex starts, words]
      rfl
    have command := bounds.command _ _ _ (sampleCalls_of_whole cleanFull (whole 999))
    have ends : EndsInWord fullLine :=
      ⟨starts, fullLine, .refl, by decide, by rw [lexed]⟩
    obtain ⟨stop, stopped⟩ := stops_of_inBounds command
      (by rw [fullLine, List.length_replicate]; rfl) ends
    rw [read] at stopped
    cases stopped

end OsTasks.Shell
