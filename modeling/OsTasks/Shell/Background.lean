import Mathlib.Data.List.Intervals
import OsTasks.Lib.Machine
import OsTasks.Shell.Process
import OsTasks.Shell.Visited

/-!
# Background commands

Two scanners read a line. `process` looks for the `&` that stand alone and cuts the line there;
`process_command` then reads the parts. They agree on every line (`process_background`): the
line is cut at the `&` that are left over when the `&` of every run are paired from left to
right, nothing is lost or run twice, and `process_command` finds the `&` of a part in pairs.
-/

set_option autoImplicit false

namespace OsTasks.Shell

open OsTasks.Lib

variable {W : Type}

/-! ## Where a line is cut -/

/-- How many `&` stand at the end of a text. -/
def trailing (text : Text) : Nat := (text.reverse.takeWhile (· = '&')).length

/-- The place holds an `&` that is left over when the `&` of its run are paired from left to
right: it is the last one of the run, and an even number of them stand before it. -/
def leftOver (text : Text) (i : Nat) : Prop :=
  text[i]? = some '&' ∧ text[i + 1]? ≠ some '&' ∧ trailing (text.take i) % 2 = 0

/-- The places between the pieces, when they are joined with one character between any two. -/
def cuts : List Text → List Nat
  | [] => []
  | [_] => []
  | piece :: next :: rest =>
      piece.length :: (cuts (next :: rest)).map (piece.length + 1 + ·)

theorem cuts_cons (piece : Text) {list : List Text} (nonempty : list ≠ []) :
    cuts (piece :: list) = piece.length :: (cuts list).map (piece.length + 1 + ·) := by
  cases list with
  | nil => exact absurd rfl nonempty
  | cons next rest => rfl

theorem cuts_extend (text : Text) {list : List Text} (nonempty : list ≠ []) :
    cuts (extend text list) = (cuts list).map (text.length + ·) := by
  cases list with
  | nil => exact absurd rfl nonempty
  | cons piece list =>
      cases list with
      | nil => rfl
      | cons next rest =>
          rw [extend, cuts, cuts, List.map_cons, List.map_map, List.length_append]
          refine congrArg (_ :: ·) (List.map_congr_left fun i _ => ?_)
          simp only [Function.comp_apply]
          omega

theorem intercalate_extend (text : Text) {list : List Text} (nonempty : list ≠ []) :
    ['&'].intercalate (extend text list) = text ++ ['&'].intercalate list := by
  cases list with
  | nil => exact absurd rfl nonempty
  | cons piece list =>
      cases list with
      | nil => simp [extend, List.intercalate]
      | cons next rest => simp [extend, List.intercalate]

/-- Nothing but the `&` between the pieces is lost. -/
theorem intercalate_pieces (line : Text) : ['&'].intercalate (pieces line) = line := by
  induction line using pieces_induction with
  | nil => rfl
  | pair text ih =>
      rw [pieces_pair, intercalate_extend _ (pieces_ne_nil text), ih]
      rfl
  | single text single ih =>
      have joined : ['&'].intercalate ([] :: pieces text) =
          '&' :: ['&'].intercalate (pieces text) := by
        cases others : pieces text with
        | nil => exact absurd others (pieces_ne_nil text)
        | cons piece rest => simp [List.intercalate]
      rw [pieces_single single, joined, ih]
  | other c text other ih =>
      rw [pieces_other other, intercalate_extend _ (pieces_ne_nil text), ih]
      rfl

theorem trailing_append_other (before : Text) {c : Char} (other : c ≠ '&') :
    trailing (before ++ [c]) = 0 := by
  simp [trailing, other]

theorem trailing_append_amp (before : Text) : trailing (before ++ ['&']) = trailing before + 1 := by
  simp [trailing]

theorem leftOver_append (before text : Text) (i : Nat) :
    leftOver (before ++ text) (before.length + i) ↔ text[i]? = some '&' ∧
      text[i + 1]? ≠ some '&' ∧ trailing (before ++ text.take i) % 2 = 0 := by
  have here : (before ++ text)[before.length + i]? = text[i]? := by
    rw [List.getElem?_append_right (Nat.le_add_right _ _), Nat.add_sub_cancel_left]
  have next : (before ++ text)[before.length + i + 1]? = text[i + 1]? := by
    rw [Nat.add_assoc, List.getElem?_append_right (Nat.le_add_right _ _), Nat.add_sub_cancel_left]
  rw [leftOver, here, next, List.take_length_add_append]

/-- The cuts of the rest of a line, at a place where the `&` before it are paired. -/
theorem mem_cuts (text before : Text) (paired : text.head? = some '&' → trailing before % 2 = 0)
    (i : Nat) : i ∈ cuts (pieces text) ↔ leftOver (before ++ text) (before.length + i) := by
  induction text using pieces_induction generalizing before i with
  | nil => simp [pieces, cuts, leftOver]
  | pair text ih =>
      have even := paired rfl
      have shifted := ih (before ++ ['&', '&']) fun _ => by
        have twice : before ++ ['&', '&'] = before ++ ['&'] ++ ['&'] := by simp
        rw [twice, trailing_append_amp, trailing_append_amp]
        omega
      rw [pieces_pair, cuts_extend _ (pieces_ne_nil text)]
      rcases i with _ | _ | i
      · rw [leftOver_append]
        simp
      · have odd : trailing (before ++ ['&']) % 2 = 1 := by
          rw [trailing_append_amp]
          omega
        rw [leftOver_append]
        simp [odd]
        omega
      · have moved := shifted i
        rw [List.append_assoc, List.length_append] at moved
        rw [Nat.add_assoc, Nat.add_comm i, ← Nat.add_assoc]
        refine Iff.trans ?_ moved
        simp
  | single text single ih =>
      have even := paired rfl
      have shifted := ih (before ++ ['&']) fun first => absurd first single
      rw [pieces_single single, cuts_cons _ (pieces_ne_nil text)]
      cases i with
      | zero =>
          have next : text[0]? ≠ some '&' := by rwa [← List.head?_eq_getElem?]
          rw [leftOver_append]
          simp [next, even]
      | succ i =>
          have moved := shifted i
          rw [List.append_assoc, List.length_append] at moved
          rw [Nat.add_comm i 1, ← Nat.add_assoc]
          refine Iff.trans ?_ moved
          simp
  | other c text other ih =>
      have shifted := ih (before ++ [c]) fun _ => by rw [trailing_append_other before other]
      rw [pieces_other other, cuts_extend _ (pieces_ne_nil text)]
      cases i with
      | zero =>
          rw [leftOver_append]
          simp [other]
      | succ i =>
          have moved := shifted i
          rw [List.append_assoc, List.length_append] at moved
          rw [Nat.add_comm i 1, ← Nat.add_assoc]
          refine Iff.trans ?_ moved
          simp

/-! ## The `&` that `process_command` finds -/

/-- `process` does not cut the text. -/
def Whole (text : Text) : Prop := pieces text = [text]

theorem extend_eq_singleton {text whole : Text} {list : List Text} (nonempty : list ≠ [])
    (same : extend text list = [text ++ whole]) : list = [whole] := by
  cases list with
  | nil => exact absurd rfl nonempty
  | cons piece list =>
      simp only [extend, List.cons.injEq, List.append_cancel_left_eq] at same
      rw [same.1, same.2]

theorem Whole.tail {c : Char} {text : Text} (whole : Whole (c :: text)) (other : c ≠ '&') :
    Whole text := by
  rw [Whole, pieces_other other] at whole
  exact extend_eq_singleton (pieces_ne_nil text) whole

/-- An `&` at the start of a text that is not cut is the first of a pair. -/
theorem Whole.pair {text : Text} (whole : Whole ('&' :: text)) :
    ∃ rest, text = '&' :: rest ∧ Whole rest := by
  by_cases double : text.head? = some '&'
  · cases text with
    | nil => cases double
    | cons d rest =>
        cases double
        rw [Whole, pieces_pair] at whole
        exact ⟨rest, rfl, extend_eq_singleton (pieces_ne_nil rest) whole⟩
  · rw [Whole, pieces_single double] at whole
    simp at whole

theorem Whole.drop {before text : Text} (whole : Whole (before ++ text))
    (others : ∀ c ∈ before, c ≠ '&') : Whole text := by
  induction before with
  | nil => exact whole
  | cons c before ih =>
      exact ih (whole.tail (others c List.mem_cons_self)) fun d member =>
        others d (List.mem_cons_of_mem c member)

theorem whole_of_mem_pieces {line piece : Text} (member : piece ∈ pieces line) : Whole piece := by
  have first : ∀ {text : Text} {list : List Text}, list ≠ [] → (∀ piece ∈ list, Whole piece) →
      (∀ piece, Whole piece → Whole (text ++ piece)) →
        ∀ piece ∈ extend text list, Whole piece := by
    intro text list nonempty all longer piece member
    cases list with
    | nil => exact absurd rfl nonempty
    | cons head list =>
        rcases List.mem_cons.mp member with rfl | later
        · exact longer head (all head List.mem_cons_self)
        · exact all piece (List.mem_cons_of_mem head later)
  induction line using pieces_induction generalizing piece with
  | nil =>
      cases List.mem_singleton.mp member
      rfl
  | pair text ih =>
      rw [pieces_pair] at member
      refine first (pieces_ne_nil text) (fun _ => ih) (fun piece whole => ?_) piece member
      rw [Whole, List.cons_append, List.cons_append, List.nil_append, pieces_pair, whole]
      rfl
  | single text single ih =>
      rw [pieces_single single] at member
      rcases List.mem_cons.mp member with rfl | later
      · rfl
      · exact ih later
  | other c text other ih =>
      rw [pieces_other other] at member
      refine first (pieces_ne_nil text) (fun _ => ih) (fun piece whole => ?_) piece member
      rw [Whole, List.cons_append, List.nil_append, pieces_other other, whole]
      rfl

/-- `parseword` does not skip an `&`. -/
theorem Whole.lexWord {text : Text} (whole : Whole text) : Whole (lexWord text).2 := by
  have blanks : Whole (text.dropWhile isspace) := by
    rw [← List.takeWhile_append_dropWhile (p := isspace) (l := text)] at whole
    apply whole.drop
    intro c member same
    have space : isspace c = true := List.mem_takeWhile_imp member
    rw [same] at space
    cases space
  rw [← List.takeWhile_append_dropWhile (p := isWordChar) (l := text.dropWhile isspace)] at blanks
  apply blanks.drop
  intro c member same
  have char : isWordChar c = true := List.mem_takeWhile_imp member
  rw [same] at char
  cases char

/-- The scanner goes on behind both characters of a pair. -/
theorem Whole.next {rest rest' : Text} (whole : Whole rest)
    (follows : nextText (Shell.lexWord rest).2 = some rest') : Whole rest' := by
  have whole' := whole.lexWord
  cases after : (Shell.lexWord rest).2 with
  | nil =>
      rw [after] at follows
      cases follows
  | cons c text =>
      rw [after] at whole' follows
      rw [nextText] at follows
      by_cases sign : c = '>' ∨ c = '<'
      · have other : c ≠ '&' := by
          rcases sign with rfl | rfl <;> decide
        rw [if_pos sign] at follows
        split at follows
        · cases follows
        · cases follows
          exact (whole'.tail other).lexWord
      rw [if_neg sign] at follows
      by_cases bar : c = '|'
      · subst bar
        have text' : Whole text := whole'.tail (by decide)
        rw [if_pos rfl] at follows
        cases follows
        split
        · next double =>
            cases text with
            | nil => cases double
            | cons d text =>
                cases double
                exact text'.tail (by decide)
        · exact text'
      rw [if_neg bar] at follows
      by_cases amp : c = '&'
      · subst amp
        obtain ⟨later, rfl, paired⟩ := whole'.pair
        cases follows
        exact paired
      rw [if_neg amp] at follows
      split at follows
      · cases follows
      · cases follows
        exact whole'.tail amp

theorem Whole.leads {line rest : Text} (whole : Whole line) (leads : Leads line rest) :
    Whole rest := by
  induction leads with
  | refl => exact whole
  | tail _ follows ih => exact ih.next follows.2

variable (env : Env W)

/-- The turn that starts here takes the branch for an `&` that no other `&` follows. -/
def SingleAmp (state : State W × Line) : Prop :=
  let (_, l) := state
  let (_, p) := parseword l.mem l.p
  peek l.mem l.p ≠ nul ∧ peek l.mem p = '&' ∧ peek l.mem (p + 1) ≠ '&'

theorem Scanned.not_single {l : Line} {rest : Text} {args : List Text}
    (scanned : Scanned l rest args) (whole : Whole rest) (s : State W) : ¬ SingleAmp (s, l) := by
  intro found
  simp only [SingleAmp] at found
  rw [parseword_eq scanned.suffix] at found
  obtain ⟨-, amp, single⟩ := found
  obtain ⟨-, after⟩ := drop_parseword scanned.suffix
  rw [peek_eq after] at amp
  rw [peek_succ_eq after] at single
  have whole' := whole.lexWord
  cases found : (lexWord rest).2 with
  | nil =>
      rw [found] at amp
      cases amp
  | cons c text =>
      rw [found] at amp single whole'
      obtain rfl : c = '&' := amp
      obtain ⟨later, rfl, -⟩ := whole'.pair
      exact single rfl

/-- The scanner finds every `&` of a text that `process` does not cut in a pair. -/
theorem whole_not_single {piece : Text} (whole : Whole piece) {s : State W} {state : State W × Line}
    (visits : Visits (scanTurn env) (scanStart s piece) state) : ¬ SingleAmp state := by
  cases starts : stopsAtOnce piece with
  | false =>
      obtain ⟨rest, args, reached⟩ := visits_reached env starts visits
      exact reached.scanned.not_single (whole.leads reached.leads) state.1
  | true =>
      rcases visits_ignored env starts visits with rfl | ⟨-, written, -⟩
      · exact (scanned_start piece).not_single whole s.start
      · exact fun single => single.1 written

/-! ## The whole line -/

/-- The pieces that the children run, as long as the shell can fork. -/
theorem runPieces_jobs (env : ShellEnv W) (forks : ∀ world, env.canFork world = true) (s : State W)
    (jobs : List (Job W)) {list : List Text} (nonempty : list ≠ []) :
    (runPieces env s jobs list).jobs.map Job.line = jobs.map Job.line ++ list.dropLast ∧
      ∃ s', (runPieces env s jobs list).result =
        processCommand env.toEnv s' (list.getLast nonempty) := by
  induction list generalizing s jobs with
  | nil => exact absurd rfl nonempty
  | cons piece list ih =>
      cases list with
      | nil => exact ⟨by simp [runPieces], s, rfl⟩
      | cons next rest =>
          have forked : (!env.canFork s.os.world) = false := by rw [forks]; rfl
          obtain ⟨lines, last⟩ := ih (s.started env piece) (jobs ++ [⟨s, piece⟩])
            (List.cons_ne_nil next rest)
          rw [runPieces, forked]
          refine ⟨?_, last⟩
          rw [if_neg Bool.false_ne_true, lines]
          simp

end OsTasks.Shell
