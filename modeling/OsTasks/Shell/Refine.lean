import Mathlib.Data.List.Forall2
import Mathlib.Data.List.TakeWhile
import OsTasks.Shell.Execute

/-!
# The scanner executes the tokens

`processCommand_eq` connects the translation of the code with the tokens of the line: for
every line, `process_command` does what executing the tokens does.

The invariant of the scan (`Scanned`) says that the buffer from `p` on is still the line, and
that every word in `args` is a string that ends before `p`, out of reach of later writes.
`loop_scan` follows the loop by induction on the fuel.
-/

set_option autoImplicit false

namespace OsTasks.Shell

open OsTasks.Lib

variable {W : Type}

/-! ## Reading the buffer -/

section Buffer

variable {mem : List Char} {p : Nat} {rest : Text}

theorem peek_eq (suffix : mem.drop p = rest ++ [nul]) : peek mem p = rest.headD nul := by
  have first : mem[p]? = (rest ++ [nul])[0]? := by
    rw [← suffix, List.getElem?_drop, Nat.add_zero]
  rw [peek]
  rw [List.getD_eq_getElem?_getD, first]
  cases rest <;> rfl

theorem peek_succ_eq (suffix : mem.drop p = rest ++ [nul]) :
    peek mem (p + 1) = rest.tail.headD nul := by
  have second : mem[p + 1]? = (rest ++ [nul])[1]? := by rw [← suffix, List.getElem?_drop]
  rw [peek]
  rw [List.getD_eq_getElem?_getD, second]
  cases rest with
  | nil => rfl
  | cons c rest => cases rest <;> rfl

theorem takeWhile_append_nul {f : Char → Bool} (stops : f nul = false) (text : Text) :
    (text ++ [nul]).takeWhile f = text.takeWhile f := by
  rw [List.takeWhile_append]
  split
  · next all =>
      have whole : text.takeWhile f = text := (List.takeWhile_prefix f).eq_of_length all
      rw [List.takeWhile_cons_of_neg (by simp [stops]), List.append_nil, whole]
  · rfl

theorem skipWhile_eq {f : Char → Bool} (stops : f nul = false)
    (suffix : mem.drop p = rest ++ [nul]) :
    skipWhile f mem p = p + (rest.takeWhile f).length := by
  rw [skipWhile]
  rw [suffix, takeWhile_append_nul stops]

theorem drop_skipWhile {f : Char → Bool} (stops : f nul = false)
    (suffix : mem.drop p = rest ++ [nul]) :
    mem.drop (skipWhile f mem p) = rest.dropWhile f ++ [nul] := by
  rw [skipWhile_eq stops suffix, ← List.drop_drop, suffix]
  nth_rewrite 2 [← List.takeWhile_append_dropWhile (p := f) (l := rest)]
  rw [List.append_assoc, List.drop_left]

/-- Where the word starts. -/
def gap (rest : Text) : Nat := (rest.takeWhile isspace).length

theorem parseword_eq (suffix : mem.drop p = rest ++ [nul]) :
    parseword mem p = (if (lexWord rest).1 = [] then none else some (p + gap rest),
      p + gap rest + (lexWord rest).1.length) := by
  have blanks := skipWhile_eq (f := isspace) (by decide) suffix
  have after := drop_skipWhile (f := isspace) (by decide) suffix
  have word := skipWhile_eq (f := fun c => !isDelimiter c) (by decide) after
  simp only [parseword]
  rw [word, blanks]
  change (if _ + (lexWord rest).1.length ≠ _ then _ else _, _) = _
  rw [Prod.mk.injEq]
  refine ⟨?_, rfl⟩
  by_cases empty : (lexWord rest).1 = []
  · simp [empty]
  · have positive : 0 < (lexWord rest).1.length := List.length_pos_iff.mpr empty
    rw [if_pos (by omega), if_neg empty]
    rfl

theorem drop_parseword (suffix : mem.drop p = rest ++ [nul]) :
    mem.drop (p + gap rest) = (lexWord rest).1 ++ ((lexWord rest).2 ++ [nul]) ∧
      mem.drop (p + gap rest + (lexWord rest).1.length) = (lexWord rest).2 ++ [nul] := by
  have after : mem.drop (p + gap rest) = rest.dropWhile isspace ++ [nul] := by
    rw [gap, ← skipWhile_eq (f := isspace) (by decide) suffix]
    exact drop_skipWhile (by decide) suffix
  have split : mem.drop (p + gap rest) = (lexWord rest).1 ++ ((lexWord rest).2 ++ [nul]) := by
    rw [after, ← List.append_assoc]
    congr 1
    exact (List.takeWhile_append_dropWhile (p := isWordChar)).symm
  refine ⟨split, ?_⟩
  rw [← List.drop_drop, split, List.drop_left]

end Buffer

/-! ## The words in `args` -/

/-- The string at an address ends before `bound`. -/
def Held (mem : List Char) (bound q : Nat) (word : Text) : Prop :=
  (∃ t, mem.drop q = word ++ nul :: t) ∧ q + word.length < bound ∧ nul ∉ word

namespace Held

variable {mem : List Char} {bound q : Nat} {word : Text}

theorem cstring (held : Held mem bound q word) : cstring mem q = word := by
  obtain ⟨⟨t, found⟩, -, clean⟩ := held
  have chars : ∀ c ∈ word, decide (c ≠ nul) = true := by
    intro c member
    simp only [decide_eq_true_eq]
    exact fun same => clean (same ▸ member)
  rw [Shell.cstring]
  rw [found, List.takeWhile_append_of_pos chars, List.takeWhile_cons_of_neg (by simp),
    List.append_nil]

theorem set (held : Held mem bound q word) {i : Nat} (beyond : bound ≤ i) (c : Char) :
    Held (mem.set i c) bound q word := by
  obtain ⟨⟨t, found⟩, before, clean⟩ := held
  refine ⟨⟨t.set (i - q - word.length - 1) c, ?_⟩, before, clean⟩
  rw [List.drop_set, if_neg (by omega), found, List.set_append_right _ _ (by omega)]
  obtain ⟨n, index⟩ : ∃ n, i - q - word.length = n + 1 := ⟨i - q - word.length - 1, by omega⟩
  rw [index, List.set_cons_succ]
  rfl

theorem mono {bound' : Nat} (held : Held mem bound q word) (more : bound ≤ bound') :
    Held mem bound' q word := ⟨held.1, by have := held.2.1; omega, held.2.2⟩

end Held

theorem set_peek (mem : List Char) (d : Nat) : mem.set d (peek mem d) = mem := by
  by_cases inside : d < mem.length
  · rw [peek, List.getD_eq_getElem?_getD, List.getElem?_eq_getElem inside, Option.getD_some,
      List.set_getElem_self]
  · exact List.set_eq_of_length_le (by omega)

/-- The word that `parseword` finds, once NUL is written over the delimiter. -/
theorem held_parseword {mem : List Char} {p : Nat} {rest : Text}
    (suffix : mem.drop p = rest ++ [nul]) :
    Held (mem.set (p + gap rest + (lexWord rest).1.length) nul)
      (p + gap rest + (lexWord rest).1.length + 1) (p + gap rest) (lexWord rest).1 := by
  obtain ⟨start, -⟩ := drop_parseword suffix
  refine ⟨⟨((lexWord rest).2 ++ [nul]).tail, ?_⟩, by omega, fun member => ?_⟩
  · rw [List.drop_set, if_neg (by omega), start, List.set_append_right _ _ (by omega),
      Nat.add_sub_cancel_left, Nat.sub_self]
    cases (lexWord rest).2 <;> rfl
  · have char : isWordChar nul = true := List.mem_takeWhile_imp member
    cases char

/-- The array `args` holds these words, which end before `bound`. -/
structure Collected (l : Line) (bound : Nat) (args : List Text) (words : List Nat) : Prop where
  array : ∃ stale, l.args = words.map some ++ none :: stale
  size : l.args.length = maxArgs
  narg : l.narg = words.length
  held : List.Forall₂ (Held l.mem bound) words args

namespace Collected

variable {l : Line} {bound : Nat} {args : List Text} {words : List Nat}

theorem argv (collected : Collected l bound args words) : l.argv = args := by
  obtain ⟨stale, array⟩ := collected.array
  have strings : words.map (Shell.cstring l.mem) = args := by
    have held := collected.held
    clear collected array
    induction held with
    | nil => rfl
    | cons first _ ih => rw [List.map_cons, ih, first.cstring]
  have filled : l.args.takeWhile Option.isSome = words.map some := by
    rw [array, List.takeWhile_append_of_pos (by simp), List.takeWhile_cons_of_neg (by simp),
      List.append_nil]
  have found : (words.map some).filterMap (fun word => word.map (Shell.cstring l.mem)) =
      words.map (Shell.cstring l.mem) := by
    rw [List.filterMap_map, ← List.filterMap_eq_map]
    rfl
  rw [Line.argv, filled, found, strings]

theorem length (collected : Collected l bound args words) : l.narg = args.length :=
  collected.narg.trans collected.held.length_eq

/-- The place `*narg` is always `NULL`. -/
theorem narg_null (collected : Collected l bound args words) :
    l.args.getD l.narg none = none := by
  obtain ⟨stale, array⟩ := collected.array
  rw [array, collected.narg, List.getD_eq_getElem?_getD, List.getElem?_append_right (by simp)]
  simp

theorem mono {bound' : Nat} (collected : Collected l bound args words) (more : bound ≤ bound') :
    Collected l bound' args words :=
  { collected with held := collected.held.imp fun _ _ held => held.mono more }

theorem reset (collected : Collected l bound args words) : Collected l.resetArgs bound [] [] where
  array := by
    have size := collected.size
    obtain ⟨stale, array⟩ := collected.array
    simp only [Line.resetArgs]
    cases places : l.args with
    | nil =>
        rw [places] at size
        cases size
    | cons first others => exact ⟨others, rfl⟩
  size := (List.length_set ..).trans collected.size
  narg := rfl
  held := .nil

/-- A write beyond the words, and a move of `p`. -/
theorem write (collected : Collected l bound args words) {i : Nat} (beyond : bound ≤ i) (c : Char)
    (p : Nat) : Collected { l with mem := l.mem.set i c, p := p } bound args words :=
  { collected with held := collected.held.imp fun _ _ held => held.set beyond c }

theorem push (collected : Collected l bound args words) {q : Nat} {word : Text}
    (held : Held l.mem bound q word) :
    if args.length + 1 < maxArgs then
      ∃ l', l.pushArg q = some l' ∧ Collected l' bound (args ++ [word]) (words ++ [q]) ∧
        l'.mem = l.mem ∧ l'.p = l.p
    else l.pushArg q = none := by
  rw [Line.pushArg]
  rw [collected.length]
  split
  · next room =>
      refine ⟨_, rfl, ⟨?_, ?_, ?_, ?_⟩, rfl, rfl⟩
      · obtain ⟨stale, array⟩ := collected.array
        have count : args.length = (words.map some).length := by
          rw [List.length_map, ← collected.narg, collected.length]
        have size := collected.size
        obtain ⟨next, stale, rfl⟩ : ∃ next rest, stale = next :: rest := by
          cases stale with
          | nil =>
              rw [array] at size
              simp only [List.length_append, ← count, List.length_cons, List.length_nil] at size
              omega
          | cons next rest => exact ⟨next, rest, rfl⟩
        refine ⟨stale, ?_⟩
        dsimp only
        rw [array, count, List.set_append_right _ _ (by omega), Nat.sub_self,
          List.set_append_right _ _ (by omega)]
        simp
      · simp [collected.size]
      · simp [← collected.narg, collected.length]
      · exact List.rel_append collected.held (.cons held .nil)
  · rfl

end Collected

/-- The invariant of the scan. -/
structure Scanned (l : Line) (rest : Text) (args : List Text) : Prop where
  suffix : l.mem.drop l.p = rest ++ [nul]
  words : ∃ words, Collected l l.p args words

/-- The line after `parseword` has found a delimiter and NUL is written over it. -/
structure AtDelimiter (l : Line) (after : Text) (args : List Text) : Prop where
  suffix : l.mem.drop (l.p + 1) = (after ++ [nul]).tail
  words : ∃ words, Collected l (l.p + 1) args words

theorem Scanned.of_delimiter {l : Line} {c : Char} {rest : Text} {args : List Text}
    (found : AtDelimiter l (c :: rest) args) : Scanned { l with p := l.p + 1 } rest args where
  suffix := found.suffix
  words := by
    obtain ⟨words, collected⟩ := found.words
    exact ⟨words, { collected with }⟩

theorem AtDelimiter.reset {l : Line} {after : Text} {args : List Text}
    (found : AtDelimiter l after args) : AtDelimiter l.resetArgs after [] where
  suffix := found.suffix
  words := by
    obtain ⟨words, collected⟩ := found.words
    exact ⟨[], collected.reset⟩

/-- The second character of `&&` or `||`. -/
theorem AtDelimiter.next {l : Line} {c : Char} {text : Text} {args : List Text}
    (found : AtDelimiter l (c :: text) args) : AtDelimiter { l with p := l.p + 1 } text args where
  suffix := by
    have here : l.mem.drop (l.p + 1) = text ++ [nul] := found.suffix
    rw [← List.drop_drop, here, List.drop_one]
  words := by
    obtain ⟨words, collected⟩ := found.words
    exact ⟨words, { collected.mono (Nat.le_succ (l.p + 1)) with }⟩

section Turns

variable (env : Env W)

/-- Without a pipe, `run_command2` never returns 0. -/
theorem runCommand_eq (s : State W) (argv : List Text) :
    runCommand env s argv = (finish env s argv).map fun s => (true, s) := by
  rw [finish, runCommand, runCommand2]
  simp only [Bool.false_eq_true, if_false]
  split
  · rfl
  · split
    · next result _ => cases result <;> rfl
    · cases forkCommand env s argv none <;> rfl

theorem endCommand_eq (s : State W) {l : Line} {bound : Nat} {args : List Text} {words : List Nat}
    (collected : Collected l bound args words) :
    endCommand env s l = (finish env s args).map fun s => (s, l.resetArgs) := by
  rw [endCommand]
  rw [collected.argv, runCommand_eq]
  cases finish env s args <;> rfl

/-- A `<` or `>` that no word follows. -/
def NoTarget : Text → Prop
  | [] => False
  | c :: text => (c = '>' ∨ c = '<') ∧ (lexWord text).1 = []

theorem NoTarget.lexed {after : Text} (target : NoTarget after) :
    ∃ tail, lexDelimiter lex after = .noFile :: tail := by
  cases after with
  | nil => exact target.elim
  | cons c text =>
      obtain ⟨rfl | rfl, missing⟩ := target
      · exact ⟨_, by rw [lexDelimiter, if_pos rfl, lexRedirect, if_pos missing]⟩
      · exact ⟨_, by rw [lexDelimiter, if_neg (by decide), if_pos rfl, lexRedirect, if_pos missing]⟩

/-- The ways in which a dispatch stops the shell. -/
inductive Fails (s : State W) (args : List Text) (after : Text) : Stop W → Prop where
  | missing : NoTarget after → Fails s args after (.fault s)
  | last {stop : Stop W} : nextText after = none → lexDelimiter lex after = [] →
      finish env s args = .error stop → Fails s args after stop
  | operator {op : Token} {change : State W → State W} {tail : List Token} {stop : Stop W} :
      op.operator = some change → lexDelimiter lex after = op :: tail →
        finish env s args = .error stop → Fails s args after stop

/-- What a dispatch has to do with the tokens from the delimiter on. -/
def Refines (s : State W) (l : Line) (args : List Text) (after : Text) :
    Except (Stop W) ((State W × Line) ⊕ State W) → Prop
  | .error stop => Fails env s args after stop
  | .ok (.inr s') => nextText after = none ∧ lexDelimiter lex after = [] ∧
      finish env s args = .ok s'
  | .ok (.inl (s', l')) => l'.p ≠ 0 ∧ l'.mem.length = l.mem.length ∧
      ∃ rest args' toks, nextText after = some rest ∧
      rest.length < after.length ∧ Scanned { l' with p := l'.p + 1 } rest args' ∧
        lexDelimiter lex after = toks ++ lex rest ∧
          stepTokens env (s, args) toks = .ok (s', args')

theorem redirect_refines (s : State W) {l : Line} {c : Char} {text : Text} {args : List Text}
    (write : Bool) (found : AtDelimiter l (c :: text) args) (sign : c = '>' ∨ c = '<')
    (delimiter : lexDelimiter lex (c :: text) = lexRedirect lex write text) :
    Refines env s l args (c :: text) (do
      let next ← redirect env s l write
      .ok (.inl next)) := by
  obtain ⟨words, collected⟩ := found.words
  have suffix : l.mem.drop (l.p + 1) = text ++ [nul] := found.suffix
  obtain ⟨start, after⟩ := drop_parseword suffix
  have shorter := lexWord_length text
  rw [redirect]
  rw [parseword_eq suffix]
  by_cases missing : (lexWord text).1 = []
  · rw [if_pos missing]
    exact .missing ⟨sign, missing⟩
  · rw [if_neg missing]
    have positive : 0 < (lexWord text).1.length := List.length_pos_iff.mpr missing
    generalize place : l.p + 1 + gap text + (lexWord text).1.length = d at after ⊢
    have restored : (l.mem.set d nul).set d (peek l.mem d) = l.mem := by
      rw [List.set_set, set_peek]
    have name : cstring (l.mem.set d nul) (l.p + 1 + gap text) = (lexWord text).1 := by
      rw [← place]
      exact (held_parseword suffix).cstring
    dsimp only
    rw [restored, name]
    have moved : ∀ {l' : Line} {args' : List Text}, l'.mem = l.mem → l'.p = d - 1 →
        (∃ words, Collected l' (l.p + 1) args' words) →
          Scanned { l' with p := l'.p + 1 } (lexWord text).2 args' := by
      intro l' args' mem p found
      obtain ⟨words, collected⟩ := found
      have next : l'.p + 1 = d := by omega
      have before : l.p + 1 ≤ l'.p + 1 := by omega
      refine ⟨?_, words, { collected.mono before with }⟩
      rw [next, mem]
      exact after
    have next : nextText (c :: text) = some (lexWord text).2 := by
      rw [nextText, if_pos sign, if_neg missing]
    have step : stepTokens env (s, args) [.redirect write (lexWord text).1] =
        .ok (redirectToken env s args write (lexWord text).1) := rfl
    have lexed : lexDelimiter lex (c :: text) =
        [.redirect write (lexWord text).1] ++ lex (lexWord text).2 := by
      rw [delimiter, lexRedirect, if_neg missing]
      rfl
    have less : (lexWord text).2.length < (c :: text).length := Nat.lt_succ_of_le shorter
    rw [redirectToken] at step
    cases opened : s.os.openFile env (lexWord text).1 write with
    | mk fd os =>
        rw [opened] at step
        cases fd with
        | none =>
            refine ⟨?_, rfl, (lexWord text).2, [], _, next, less, moved rfl rfl ⟨[], ?_⟩, lexed,
              step⟩
            · change d - 1 ≠ 0
              omega
            · have moved : Collected { l with p := d - 1 } (l.p + 1) args words :=
                { collected with }
              exact moved.reset
        | some fd =>
            refine ⟨?_, rfl, (lexWord text).2, args, _, next, less, moved rfl rfl ⟨words, ?_⟩,
              lexed, step⟩
            · change d - 1 ≠ 0
              omega
            · exact { collected with }

/-- The command ends here, and the scan goes on behind the delimiter. -/
theorem endCommand_refines (s : State W) {l : Line} {after : Text} {c : Char} {rest : Text}
    {args : List Text} (found : AtDelimiter l (c :: rest) args) (moves : l.p ≠ 0)
    (next : nextText after = some rest) (shorter : rest.length < after.length) {token : Token}
    (lexed : lexDelimiter lex after = token :: lex rest) {change : State W → State W}
    (operator : token.operator = some change) :
    Refines env s l args after (do
      let (s, l) ← endCommand env s l
      .ok (.inl (change s, l))) := by
  obtain ⟨words, collected⟩ := found.words
  rw [endCommand_eq env s collected]
  cases ended : finish env s args with
  | error stop => exact .operator operator lexed ended
  | ok s' =>
      refine ⟨moves, rfl, rest, [], [token], next, shorter, .of_delimiter found.reset, lexed, ?_⟩
      rw [stepTokens, tokenStep_operator env operator, ended]
      rfl

/-- A token that only separates words. -/
theorem skip_refines (s : State W) {l : Line} {c : Char} {text : Text} {args : List Text}
    (found : AtDelimiter l (c :: text) args) (moves : l.p ≠ 0)
    (next : nextText (c :: text) = some text) (toks : List Token)
    (lexed : lexDelimiter lex (c :: text) = toks ++ lex text)
    (step : stepTokens env (s, args) toks = .ok (s, args)) :
    Refines env s l args (c :: text) (.ok (.inl (s, l))) :=
  ⟨moves, rfl, text, args, toks, next, Nat.lt_succ_self _, .of_delimiter found, lexed, step⟩

/-- The line ends here. -/
theorem return_refines (s : State W) {l : Line} {after : Text} {args : List Text}
    (found : AtDelimiter l after args) (next : nextText after = none)
    (lexed : lexDelimiter lex after = []) :
    Refines env s l args after (do
      let (s, _) ← endCommand env s l
      .ok (.inr s)) := by
  obtain ⟨words, collected⟩ := found.words
  rw [endCommand_eq env s collected]
  cases ended : finish env s args with
  | error stop => exact .last next lexed ended
  | ok s' => exact ⟨next, lexed, ended⟩

/-- The operators `&&` and `||`. -/
theorem double_refines (s : State W) {l : Line} {c d : Char} {text : Text} {args : List Text}
    (found : AtDelimiter l (c :: text) args) (double : text.head? = some d)
    (next : nextText (c :: text) = some text.tail) {token : Token}
    (lexed : lexDelimiter lex (c :: text) = token :: lex text.tail) {change : State W → State W}
    (operator : token.operator = some change) :
    Refines env s l args (c :: text) (do
      let (s, l) ← endCommand env s { l with p := l.p + 1 }
      .ok (.inl (change s, l))) := by
  obtain ⟨text, rfl⟩ : ∃ rest, text = d :: rest := by
    cases text with
    | nil => cases double
    | cons first rest => exact ⟨rest, by rw [Option.some.inj double]⟩
  refine endCommand_refines env s found.next (Nat.succ_ne_zero _) next ?_ lexed operator
  simp only [List.length_cons]
  omega

theorem headD_eq {text : Text} {c : Char} (other : c ≠ nul) :
    text.headD nul = c ↔ text.head? = some c := by
  cases text with
  | nil => simp [Ne.symm other]
  | cons d text => simp

/-- The `switch` executes the tokens of the delimiter. -/
theorem dispatch_refines (s : State W) {l : Line} {after : Text} {args : List Text}
    (found : AtDelimiter l after args) (moves : l.p = 0 → stopsAtOnce after = false)
    (visible : l.p = 0 → after.headD nul ≠ ' ' ∧ after.headD nul ≠ '\t')
    (delimiter : isDelimiter (after.headD nul) = true) :
    Refines env s l args after (dispatch env s l (after.headD nul) (after.tail.headD nul)) := by
  cases after with
  | nil => exact return_refines env s found rfl rfl
  | cons c text =>
      rw [dispatch]
      rw [List.headD_cons, List.tail_cons]
      have lexed := lexDelimiter.eq_2 lex c text
      have next := nextText.eq_2 c text
      by_cases gt : c = '>'
      · rw [if_pos gt] at lexed ⊢
        exact redirect_refines env s true found (.inl gt) lexed
      rw [if_neg gt] at lexed ⊢
      by_cases lt : c = '<'
      · rw [if_pos lt] at lexed ⊢
        exact redirect_refines env s false found (.inr lt) lexed
      rw [if_neg lt] at lexed ⊢
      rw [if_neg (not_or.mpr ⟨gt, lt⟩)] at next
      by_cases bar : c = '|'
      · rw [if_pos bar] at lexed next ⊢
        by_cases double : text.head? = some '|'
        · rw [if_pos ((headD_eq (by decide)).mpr double)]
          rw [if_pos double] at lexed next
          exact double_refines env s found double next lexed rfl
        · obtain ⟨words, collected⟩ := found.words
          rw [if_neg (mt (headD_eq (by decide)).mp double), if_pos collected.narg_null]
          rw [if_neg double] at lexed next
          have moved : l.p ≠ 0 := by
            intro first
            have stays := moves first
            simp [stopsAtOnce, bar, double] at stays
          exact skip_refines env s found moved next [.pipe] lexed rfl
      rw [if_neg bar] at lexed next ⊢
      by_cases amp : c = '&'
      · rw [if_pos amp] at lexed next ⊢
        by_cases double : text.head? = some '&'
        · rw [if_pos ((headD_eq (by decide)).mpr double)]
          rw [if_pos double] at lexed next
          exact double_refines env s found double next lexed rfl
        · rw [if_neg (mt (headD_eq (by decide)).mp double)]
          rw [if_neg double] at lexed next
          have moved : l.p ≠ 0 := by
            intro first
            have stays := moves first
            simp [stopsAtOnce, amp, double] at stays
          exact skip_refines env s found moved next [.amp] lexed rfl
      rw [if_neg amp] at lexed next ⊢
      by_cases ends : c = '#' ∨ c = nul ∨ c = '\n'
      · rw [if_pos ends] at lexed next ⊢
        exact return_refines env s found next lexed
      rw [if_neg ends] at lexed next ⊢
      by_cases semi : c = ';'
      · rw [if_pos semi] at lexed ⊢
        have moved : l.p ≠ 0 := by
          intro first
          have stays := moves first
          simp [stopsAtOnce, semi] at stays
        exact endCommand_refines env s found moved next (Nat.lt_succ_self _) lexed rfl
      · rw [if_neg semi] at lexed ⊢
        refine skip_refines env s found (fun first => ?_) next [] lexed rfl
        obtain ⟨space, tab⟩ := visible first
        simp only [List.headD_cons] at space tab delimiter
        simp [isDelimiter, space, tab, semi, amp, bar, gt, lt] at delimiter
        exact ends (by tauto)

/-- The words of the command with the next one, which may be empty. -/
def addWord (args : List Text) (word : Text) : List Text :=
  if word = [] then args else args ++ [word]

theorem stepTokens_word (s : State W) {args : List Text} {word : Text}
    (fits : word = [] ∨ args.length + 1 < maxArgs) :
    stepTokens env (s, args) (wordToken word) = .ok (s, addWord args word) := by
  rw [wordToken, addWord]
  by_cases empty : word = []
  · rw [if_pos empty, if_pos empty]
    rfl
  · rw [if_neg empty, if_neg empty, stepTokens, tokenStep, if_pos (fits.resolve_left empty)]
    rfl

/-- One turn: the word is added to the command, and the delimiter is dispatched. -/
theorem scanTurn_eq (s : State W) {l : Line} {rest : Text} {args : List Text}
    (scanned : Scanned l rest args) (more : rest.headD nul ≠ nul) :
    (scanTurn env (s, l) = .error (.fault s) ∧ (lexWord rest).1 ≠ [] ∧
        ¬ args.length + 1 < maxArgs) ∨
      ((lexWord rest).1 = [] ∨ args.length + 1 < maxArgs) ∧
        ∃ l', AtDelimiter l' (lexWord rest).2 (addWord args (lexWord rest).1) ∧
          l'.p = l.p + gap rest + (lexWord rest).1.length ∧ l'.mem = l.mem.set l'.p nul ∧
          scanTurn env (s, l) = (dispatch env s l' ((lexWord rest).2.headD nul)
            ((lexWord rest).2.tail.headD nul)).map nextTurn := by
  obtain ⟨suffix, words, collected⟩ := scanned
  obtain ⟨-, after⟩ := drop_parseword suffix
  have held := held_parseword suffix
  have ch := peek_eq after
  have ch2 := peek_succ_eq after
  simp only [scanTurn]
  rw [peek_eq suffix, if_neg more, parseword_eq suffix]
  dsimp only
  rw [ch, ch2]
  generalize place : l.p + gap rest + (lexWord rest).1.length = d at *
  have before : l.p ≤ d := by omega
  have cut : Collected { l with mem := l.mem.set d nul, p := d } (d + 1) args words :=
    (collected.write before nul d).mono (by omega)
  have tail : (l.mem.set d nul).drop (d + 1) = ((lexWord rest).2 ++ [nul]).tail := by
    rw [List.drop_set, if_pos (by omega), ← List.drop_drop, after, List.drop_one]
  by_cases empty : (lexWord rest).1 = []
  · rw [if_pos empty, addWord, if_pos empty]
    exact .inr ⟨.inl empty, _, ⟨tail, words, cut⟩, rfl, rfl, rfl⟩
  · rw [if_neg empty, addWord, if_neg empty]
    have pushed := cut.push held
    split at pushed
    · next room =>
        obtain ⟨l', push, collected', mem, p⟩ := pushed
        refine .inr ⟨.inr room, l', ⟨?_, words ++ [l.p + gap rest], ?_⟩, p, ?_, ?_⟩
        · rw [mem, p]
          exact tail
        · rw [p]
          exact collected'
        · rw [mem, p]
        · dsimp only
          rw [push]
    · next full =>
        refine .inl ⟨?_, empty, full⟩
        dsimp only
        rw [pushed]

theorem lex_of_nul {rest : Text} (ends : rest.headD nul = nul) : lex rest = [] := by
  have stops : rest.dropWhile isspace = rest ∧ rest.takeWhile isWordChar = [] ∧
      rest.dropWhile isWordChar = rest := by
    cases rest with
    | nil => exact ⟨rfl, rfl, rfl⟩
    | cons c rest =>
        obtain rfl : c = nul := ends
        exact ⟨rfl, rfl, rfl⟩
  rw [lex_eq, lexWord]
  dsimp only
  rw [stops.1, stops.2.1, stops.2.2]
  cases rest with
  | nil => rfl
  | cons c rest =>
      obtain rfl : c = nul := ends
      rfl

theorem lexWord_delimiter (rest : Text) : isDelimiter ((lexWord rest).2.headD nul) = true := by
  have first := List.head?_dropWhile_not isWordChar (rest.dropWhile isspace)
  simp only [lexWord]
  cases after : (rest.dropWhile isspace).dropWhile isWordChar with
  | nil => decide
  | cons c text =>
      rw [after] at first
      simpa [isWordChar] using first

/-- A delimiter at the first place of the line. -/
theorem lexWord_first {rest : Text} (blanks : gap rest = 0) (word : (lexWord rest).1 = []) :
    (lexWord rest).2 = rest ∧ rest.headD nul ≠ ' ' ∧ rest.headD nul ≠ '\t' := by
  have none : rest.takeWhile isspace = [] := List.length_eq_zero_iff.mp blanks
  have same : rest.dropWhile isspace = rest := by
    have split := List.takeWhile_append_dropWhile (p := isspace) (l := rest)
    rwa [none, List.nil_append] at split
  refine ⟨?_, ?_⟩
  · have split := List.takeWhile_append_dropWhile (p := isWordChar) (l := rest.dropWhile isspace)
    rw [same] at split
    simp only [lexWord] at word ⊢
    rw [same] at word ⊢
    rwa [word, List.nil_append] at split
  · cases rest with
    | nil => decide
    | cons c rest =>
        have visible : isspace c = false := by
          by_contra space
          rw [List.takeWhile_cons_of_pos (by simpa using space)] at none
          cases none
        constructor
        · rintro rfl
          cases visible
        · rintro rfl
          cases visible

/-- The turn that starts here comes to a `<` or `>` and finds no file name after it. -/
def MissingTarget (l : Line) : Prop :=
  let (word, p) := parseword l.mem l.p
  peek l.mem l.p ≠ nul ∧ (word = none ∨ l.narg + 1 < maxArgs) ∧
    (peek l.mem p = '>' ∨ peek l.mem p = '<') ∧ (parseword (l.mem.set p nul) (p + 1)).1 = none

theorem missingTarget_iff {l : Line} {rest : Text} {args : List Text}
    (scanned : Scanned l rest args) : MissingTarget l ↔ rest.headD nul ≠ nul ∧
      ((lexWord rest).1 = [] ∨ args.length + 1 < maxArgs) ∧ NoTarget (lexWord rest).2 := by
  obtain ⟨suffix, words, collected⟩ := scanned
  obtain ⟨-, after⟩ := drop_parseword suffix
  have ch := peek_eq after
  have word : (if (lexWord rest).1 = [] then none else some (l.p + gap rest)) = none ↔
      (lexWord rest).1 = [] := by
    split <;> simp_all
  rw [MissingTarget, parseword_eq suffix]
  dsimp only
  rw [peek_eq suffix, word, collected.length, ch]
  refine and_congr_right fun _ => and_congr_right fun _ => ?_
  generalize l.p + gap rest + (lexWord rest).1.length = d at after ⊢
  cases delimiter : (lexWord rest).2 with
  | nil =>
      refine ⟨?_, False.elim⟩
      rintro ⟨sign | sign, -⟩ <;> cases sign
  | cons c text =>
      rw [delimiter] at after
      have tail : (l.mem.set d nul).drop (d + 1) = text ++ [nul] := by
        rw [List.drop_set, if_pos (by omega), ← List.drop_drop, after]
        rfl
      refine and_congr_right fun _ => ?_
      rw [parseword_eq tail]
      dsimp only
      split <;> simp_all

/-- What one turn does with the tokens of the text from `p` on. -/
inductive Turn (s : State W) (l : Line) (rest : Text) (args : List Text) :
    Except (Stop W) ((State W × Line) ⊕ State W) → Prop where
  /-- The line ends, and with it the last command. -/
  | ends {args' : List Text} : rest.headD nul = nul ∨ nextText (lexWord rest).2 = none →
      stepTokens env (s, args) (lex rest) = .ok (s, args') →
        Turn s l rest args ((finish env s args').map .inr)
  /-- The word does not fit into `args`. -/
  | full {word : Text} {tail : List Token} : (lexWord rest).1 ≠ [] → ¬ args.length + 1 < maxArgs →
      lex rest = .word word :: tail → Turn s l rest args (.error (.fault s))
  | missing {toks tail : List Token} {args' : List Text} : MissingTarget l →
      lex rest = toks ++ .noFile :: tail → stepTokens env (s, args) toks = .ok (s, args') →
        Turn s l rest args (.error (.fault s))
  /-- A command in the middle of the line stops the shell. -/
  | stops {toks tail : List Token} {args' : List Text} {op : Token} {change : State W → State W}
      {stop : Stop W} : op.operator = some change → lex rest = toks ++ op :: tail →
        stepTokens env (s, args) toks = .ok (s, args') → finish env s args' = .error stop →
          Turn s l rest args (.error stop)
  | moves {toks : List Token} {rest' : Text} {s' : State W} {args' : List Text} {l' : Line} :
      rest.headD nul ≠ nul → nextText (lexWord rest).2 = some rest' → rest'.length < rest.length →
        l'.p ≠ 0 → l'.mem.length = l.mem.length → Scanned l' rest' args' →
          lex rest = toks ++ lex rest' → stepTokens env (s, args) toks = .ok (s', args') →
            Turn s l rest args (.ok (.inl (s', l')))

/-- **One turn executes the tokens that it reads.** -/
theorem scanTurn_turn (s : State W) {l : Line} {rest : Text} {args : List Text}
    (scanned : Scanned l rest args) (moves : l.p = 0 → stopsAtOnce rest = false) :
    Turn env s l rest args (scanTurn env (s, l)) := by
  by_cases ends : rest.headD nul = nul
  · obtain ⟨suffix, words, collected⟩ := scanned
    have turn : scanTurn env (s, l) = (finish env s args).map .inr := by
      simp only [scanTurn]
      rw [peek_eq suffix, if_pos ends, endCommand_eq env s collected]
      cases finish env s args <;> rfl
    rw [turn]
    exact .ends (.inl ends) (by rw [lex_of_nul ends]; rfl)
  rcases scanTurn_eq env s scanned ends with
    ⟨turn, word, full⟩ | ⟨fits, l', found, place, mem, turn⟩
  · have lexed := lex_eq rest
    rw [wordToken, if_neg word] at lexed
    rw [turn]
    exact .full word full lexed
  have first : l'.p = 0 → l.p = 0 ∧ gap rest = 0 ∧ (lexWord rest).1 = [] := by
    intro zero
    exact ⟨by omega, by omega, List.length_eq_zero_iff.mp (by omega)⟩
  have refines := dispatch_refines env s found
    (fun zero => by
      obtain ⟨start, blanks, empty⟩ := first zero
      rw [(lexWord_first blanks empty).1]
      exact moves start)
    (fun zero => by
      obtain ⟨-, blanks, empty⟩ := first zero
      rw [(lexWord_first blanks empty).1]
      exact (lexWord_first blanks empty).2)
    (lexWord_delimiter rest)
  have step := stepTokens_word env s fits
  have lexed := lex_eq rest
  rw [turn]
  cases result : dispatch env s l' ((lexWord rest).2.headD nul)
      ((lexWord rest).2.tail.headD nul) with
  | error stop =>
      rw [result] at refines
      cases refines with
      | missing target =>
          obtain ⟨tail, noFile⟩ := target.lexed
          rw [noFile] at lexed
          exact .missing ((missingTarget_iff scanned).mpr ⟨ends, fits, target⟩) lexed step
      | last next none failed =>
          rw [none, List.append_nil] at lexed
          rw [← lexed] at step
          have turn := Turn.ends (l := l) (.inr next) step
          rw [failed] at turn
          exact turn
      | operator operator delimiter failed =>
          rw [delimiter] at lexed
          exact .stops operator lexed step failed
  | ok next =>
      rw [result] at refines
      cases next with
      | inr s' =>
          obtain ⟨next, none, ended⟩ := refines
          rw [none, List.append_nil] at lexed
          rw [← lexed] at step
          have turn := Turn.ends (l := l) (.inr next) step
          rw [ended] at turn
          exact turn
      | inl next =>
          obtain ⟨s', l''⟩ := next
          obtain ⟨moved, length', rest', args'', toks, next, shorter, scanned', delimiter,
            steps⟩ := refines
          have length := lexWord_length rest
          have advanced : l''.advance = { l'' with p := l''.p + 1 } := if_pos moved
          rw [delimiter, ← List.append_assoc] at lexed
          change Turn env s l rest args (.ok (.inl (s', l''.advance)))
          rw [advanced]
          have size : l''.mem.length = l.mem.length := by rw [length', mem, List.length_set]
          refine .moves ends next (by omega) (Nat.succ_ne_zero _) size scanned' lexed ?_
          rw [stepTokens_append, step]
          exact steps

/-- **The loop executes the tokens.** -/
theorem loop_scan (fuel : Nat) : ∀ (rest : Text) (s : State W) (l : Line) (args : List Text),
    rest.length < fuel → Scanned l rest args → (l.p = 0 → stopsAtOnce rest = false) →
      loop (scanTurn env) fuel (s, l) = some (runTokens env s args (lex rest)) := by
  induction fuel with
  | zero => omega
  | succ fuel ih =>
      intro rest s l args enough scanned moves
      have turn := scanTurn_turn env s scanned moves
      generalize result : scanTurn env (s, l) = outcome at turn
      cases turn with
      | @ends args' _ steps =>
          have last : runTokens env s args (lex rest ++ []) = _ :=
            runTokens_append env (lex rest) []
          rw [steps, List.append_nil] at last
          rw [last]
          change _ = some (finish env s args')
          cases ended : finish env s args' with
          | error stop => exact loop_fault (by rw [result, ended]; rfl)
          | ok s' => exact loop_done (by rw [result, ended]; rfl)
      | full _ full lexed =>
          rw [loop_fault result, lexed, runTokens, tokenStep, if_neg full]
          rfl
      | missing _ lexed steps =>
          rw [loop_fault result, lexed, runTokens_append, steps]
          rfl
      | stops operator lexed steps failed =>
          rw [loop_fault result, lexed, runTokens_append, steps]
          change _ = some (runTokens env s _ (_ :: _))
          rw [runTokens_operator_cons env operator, failed]
          rfl
      | moves _ _ shorter moved _ scanned' lexed steps =>
          rw [loop_again result, ih _ _ _ _ (by omega) scanned' fun zero => absurd zero moved,
            lexed, runTokens_append, steps]
          rfl

/-! ## The whole line -/

theorem scanned_start (line : Text) :
    Scanned ⟨line ++ [nul], 0, List.replicate maxArgs none, 0⟩ line [] where
  suffix := rfl
  words := ⟨[], ⟨⟨List.replicate 99 none, rfl⟩, rfl, rfl, .nil⟩⟩

/-- The first character of a line that is ignored. -/
theorem dispatch_stops {s : State W} (std : s.Std)
    {l : Line} {c : Char} {text : Text} (found : AtDelimiter l (c :: text) [])
    (stops : stopsAtOnce (c :: text) = true) :
    ∃ l', dispatch env s l c (text.headD nul) = .ok (.inl (s, l')) ∧ l'.p = l.p ∧
      l'.mem = l.mem ∧ AtDelimiter l' (c :: text) [] := by
  obtain ⟨words, collected⟩ := found.words
  simp only [stopsAtOnce, decide_eq_true_eq] at stops
  rcases stops with rfl | ⟨rfl, single⟩ | ⟨rfl, single⟩
  · refine ⟨l.resetArgs, ?_, rfl, rfl, found.reset⟩
    have ended := endCommand_eq env s collected
    rw [finish_nil env std] at ended
    simp only [dispatch, ended]
    rfl
  · refine ⟨l, ?_, rfl, rfl, found⟩
    have other : text.headD nul ≠ '|' := mt (headD_eq (by decide)).mp single
    rw [dispatch]
    rw [if_neg (by decide), if_neg (by decide), if_pos rfl, if_neg other,
      if_pos collected.narg_null]
  · refine ⟨l, ?_, rfl, rfl, found⟩
    have other : text.headD nul ≠ '&' := mt (headD_eq (by decide)).mp single
    rw [dispatch]
    rw [if_neg (by decide), if_neg (by decide), if_neg (by decide), if_pos rfl, if_neg other]

/-- The first character of a line that is ignored is a delimiter, and no redirection. -/
theorem lexWord_ignored {line : Text} (stops : stopsAtOnce line = true) :
    lexWord line = ([], line) ∧ gap line = 0 ∧ line.headD nul ≠ nul ∧ ¬ NoTarget line := by
  cases line with
  | nil => cases stops
  | cons c text =>
      have single : isspace c = false ∧ isWordChar c = false ∧ c ≠ nul ∧ c ≠ '>' ∧ c ≠ '<' := by
        simp only [stopsAtOnce, decide_eq_true_eq] at stops
        rcases stops with rfl | ⟨rfl, -⟩ | ⟨rfl, -⟩ <;> decide
      refine ⟨by simp [lexWord, single], by simp [gap, single], single.2.2.1, ?_⟩
      rintro ⟨sign | sign, -⟩
      · exact single.2.2.2.1 sign
      · exact single.2.2.2.2 sign

/-- The scanner writes NUL over the first character and stays there. -/
theorem scanTurn_stops {s : State W} (std : s.Std) {line : Text} (stops : stopsAtOnce line = true)
    {l : Line} (scanned : Scanned l line []) (start : l.p = 0) :
    ∃ l', scanTurn env (s, l) = .ok (.inl (s, l')) ∧ l'.p = 0 ∧ peek l'.mem l'.p = nul ∧
      scanTurn env (s, l') = .ok (.inr s) := by
  obtain ⟨lexed, blanks, more, -⟩ := lexWord_ignored stops
  cases line with
  | nil => cases stops
  | cons c text =>
      rcases scanTurn_eq env s scanned more with ⟨-, word, -⟩ | ⟨-, l', found, place, mem, turn⟩
      · rw [lexed] at word
        exact absurd rfl word
      · rw [lexed] at found place turn
        have first : l'.p = 0 := by
          rw [place, start, blanks]
          rfl
        obtain ⟨l'', dispatched, p, same, found''⟩ := dispatch_stops env std found stops
        rw [List.headD_cons, List.tail_cons, dispatched] at turn
        have stays : l''.advance = l'' := if_neg (by simp [p, first])
        have written : peek l''.mem l''.p = nul := by
          rw [same, p, mem, first]
          cases l.mem <;> rfl
        obtain ⟨words, collected⟩ := found''.words
        refine ⟨l'', ?_, p.trans first, written, ?_⟩
        · rw [turn]
          exact congrArg (fun l => Except.ok (Sum.inl (s, l))) stays
        · simp only [scanTurn]
          rw [if_pos written, endCommand_eq env s collected, finish_nil env std]
          rfl

theorem loop_start (s : State W) (line : Text) :
    loop (scanTurn env) (line.length + 2)
        (s.start, ⟨line ++ [nul], 0, List.replicate maxArgs none, 0⟩) =
      some (runTokens env s.start [] (tokens line)) := by
  have scanned := scanned_start line
  unfold tokens
  by_cases stops : stopsAtOnce line = true
  · have std : s.start.Std := rfl
    obtain ⟨l', again, -, -, done⟩ := scanTurn_stops env std stops scanned rfl
    rw [if_pos stops, loop_again again, loop_done done]
    exact congrArg some (finish_nil env std).symm
  · rw [if_neg stops, loop_scan env _ line s.start _ [] (by omega) scanned fun _ => by
      simpa using stops]

/-- **`process_command` executes the tokens of the line.** -/
theorem processCommand_eq (s : State W) (line : Text) :
    processCommand env s line = runTokens env s.start [] (tokens line) := by
  unfold processCommand
  dsimp only
  rw [loop_start]
  rfl

end Turns

end OsTasks.Shell
