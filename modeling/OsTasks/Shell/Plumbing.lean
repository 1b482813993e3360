import Mathlib.Data.Nat.Find
import OsTasks.Shell.Comment
import OsTasks.Shell.Pipeline
import OsTasks.Shell.Streams

/-!
# The plumbing of a pipeline

The scanner never calls `run_pipe`, but the function does what it is for. Calling it on the
commands of a pipeline, and `run_command` on the last one, connects them (`runPipeline`): each
child reads the pipe that the child before it writes (`Plumbed`), nobody else holds the write
end of a pipe, and in the end the shell has the descriptors it started with
(`runPipeline_plumbing`).

The three lowest free descriptors of the shell are used over and over (`Slots`): for the two
ends of the pipe, and for the copy of its standard input. Between two calls the shell has the
copy, and the read end of the last pipe as its standard input (`stageTable`).
-/

set_option autoImplicit false

namespace OsTasks.Shell

open FdTable (get)

variable {W : Type}

/-! ## What the plumbing is for -/

/-- `run_pipe` on every command in turn. -/
def runPipes (env : Env W) (s : State W) : List Command → Except (Stop W) (State W)
  | [] => .ok s
  | command :: rest => do
      let (_, s) ← runPipe env s command
      runPipes env s rest

/-- `run_pipe` on every command but the last one, and `run_command` on that. -/
def runPipeline (env : Env W) (s : State W) (piped : List Command) (last : Command) :
    Except (Stop W) (State W) := do
  let s ← runPipes env s piped
  let (_, s) ← runCommand env s last
  .ok s

/-- The children of a log, with their descriptors. -/
def children (log : List Event) : List (Command × FdTable) :=
  log.filterMap fun event =>
    match event with
    | .launch argv fds => some (argv, fds)
    | .builtin _ _ | .opened _ _ _ | .wait => none

/-- The process is connected to the pipes before and after it, in a pipeline of `count` processes
that starts in `s`. It holds the write end of no other pipe of the pipeline. -/
structure Connected (s : State W) (count i : Nat) (fds : FdTable) : Prop where
  stdin : get fds (some stdinFileno) =
    if i = 0 then get s.os.fds (some stdinFileno) else some (.pipeRead (s.os.pipes + (i - 1)))
  stdout : get fds (some stdoutFileno) =
    if i + 1 = count then get s.os.fds (some stdoutFileno) else some (.pipeWrite (s.os.pipes + i))
  alone : ∀ j, j + 1 < count → j ≠ i → some (.pipeWrite (s.os.pipes + j)) ∉ fds

/-- The processes of a pipeline that starts in `s`. -/
structure Plumbed (s : State W) (commands : List Command)
    (processes : List (Command × FdTable)) : Prop where
  words : processes.map Prod.fst = commands
  connected : ∀ i process, processes[i]? = some process →
    Connected s commands.length i process.2

/-- The process holds ends of pipes that have been created only. -/
def Os.PipesCreated (os : Os W) : Prop :=
  ∀ index, some (.pipeRead index) ∈ os.fds ∨ some (.pipeWrite index) ∈ os.fds → index < os.pipes

/-- The calls that create a pipe and copy the standard input succeed. -/
structure PipesSucceed (env : Env W) (s : State W) : Prop where
  pipes : ∀ world, env.canPipe world = true
  stdin : get s.os.fds (some stdinFileno) ≠ none
  room : 3 ≤ s.os.fds.count none

/-! ## The lowest free descriptors -/

section Slots

variable {fds : FdTable} {n : Nat}

theorem free_eq (empty : fds[n]? = some none) (lowest : ∀ m < n, fds[m]? ≠ some none) :
    FdTable.free fds = some n := by
  obtain ⟨inside, isNone⟩ := List.getElem?_eq_some_iff.mp empty
  have first : fds.findIdx Option.isNone = n := by
    refine (List.findIdx_eq inside).mpr ⟨by simp [isNone], fun m less => ?_⟩
    have other := lowest m less
    rw [List.getElem?_eq_getElem (less.trans inside)] at other
    cases entry : fds[m] with
    | none => exact absurd (congrArg some entry) other
    | some desc => rfl
  simp only [FdTable.free, first, if_pos inside]

theorem install_eq (empty : fds[n]? = some none) (lowest : ∀ m < n, fds[m]? ≠ some none)
    (desc : Desc) : FdTable.install fds desc = (some n, fds.set n (some desc)) := by
  rw [FdTable.install, free_eq empty lowest]

theorem exists_lowest (room : 0 < fds.count none) :
    ∃ n : Nat, fds[n]? = some none ∧ ∀ m < n, fds[m]? ≠ some none := by
  have found : ∃ n : Nat, fds[n]? = some none := by
    obtain ⟨n, inside, isNone⟩ := List.mem_iff_getElem.mp (List.count_pos_iff.mp room)
    exact ⟨n, by rw [List.getElem?_eq_getElem inside, isNone]⟩
  classical
  exact ⟨Nat.find found, Nat.find_spec found, fun m less => Nat.find_min found less⟩

/-- The three lowest free descriptors of a table. -/
structure Slots (base : FdTable) (readEnd writeEnd copy : Nat) : Prop where
  order : readEnd < writeEnd ∧ writeEnd < copy
  empty : base[readEnd]? = some none ∧ base[writeEnd]? = some none ∧ base[copy]? = some none
  lowest : ∀ m < copy, base[m]? = some none → m = readEnd ∨ m = writeEnd

/-- The descriptors that are free once one is taken. -/
theorem set_empty {m : Nat} (desc : Desc) :
    (fds.set n (some desc))[m]? = some none ↔ m ≠ n ∧ fds[m]? = some none := by
  rw [List.getElem?_set]
  by_cases same : n = m
  · subst same
    simp
  · simp [same, Ne.symm same]

theorem count_fill (empty : fds[n]? = some none) (desc : Desc) :
    (fds.set n (some desc)).count none + 1 = fds.count none := by
  obtain ⟨inside, isNone⟩ := List.getElem?_eq_some_iff.mp empty
  have positive : 0 < fds.count none := List.count_pos_iff.mpr (isNone ▸ List.getElem_mem inside)
  rw [List.count_set inside, isNone, if_pos (by rfl), if_neg (by simp)]
  omega

theorem exists_slots {base : FdTable} (room : 3 ≤ base.count none) :
    ∃ readEnd writeEnd copy, Slots base readEnd writeEnd copy := by
  let taken : Desc := .inherited 0
  obtain ⟨a, emptyA, lowestA⟩ := exists_lowest (show 0 < base.count none by omega)
  have lessA := count_fill emptyA taken
  obtain ⟨b, emptyB, lowestB⟩ := exists_lowest
    (show 0 < (base.set a (some taken)).count none by omega)
  have lessB := count_fill emptyB taken
  obtain ⟨c, emptyC, lowestC⟩ := exists_lowest
    (show 0 < ((base.set a (some taken)).set b (some taken)).count none by omega)
  simp only [set_empty, ne_eq, not_and] at emptyB lowestB emptyC lowestC
  refine ⟨a, b, c, ⟨?_, ?_⟩, ⟨emptyA, emptyB.2, emptyC.2.2⟩, fun m less empty => ?_⟩
  · by_contra before
    exact lowestA b (by omega) emptyB.2
  · by_contra before
    exact lowestB c (by omega) emptyC.2.1 emptyC.2.2
  · by_contra others
    obtain ⟨notA, notB⟩ := not_or.mp others
    exact lowestC m less notB notA empty

end Slots

/-! ## The tables of the shell and of the children -/

section Tables

variable (base : FdTable) (input : Desc) (readEnd writeEnd copy : Nat) (pipes : Nat)

/-- The table of the shell after `run_pipe` on some commands. -/
def stageTable : Nat → FdTable
  | 0 => base
  | k + 1 => (base.set copy (some input)).set stdinFileno (some (.pipeRead (pipes + k)))

/-- The table once a pipe is created. -/
def openTable (table : FdTable) (k : Nat) : FdTable :=
  (table.set readEnd (some (.pipeRead (pipes + k)))).set writeEnd (some (.pipeWrite (pipes + k)))

/-- The table of the child that writes into the pipe. -/
def childTable (k : Nat) : FdTable :=
  ((openTable readEnd writeEnd pipes (stageTable base input copy pipes k) k).set stdoutFileno
    (some (.pipeWrite (pipes + k)))).set writeEnd none

end Tables

theorem stageTable_empty {base : FdTable} {input : Desc}
    (stdin : base[stdinFileno]? = some (some input)) (copy pipes k m : Nat) :
    (stageTable base input copy pipes k)[m]? = some none ↔
      base[m]? = some none ∧ (k ≠ 0 → m ≠ copy) := by
  cases k with
  | zero => simp [stageTable]
  | succ k =>
      have used : base[m]? = some none → m ≠ stdinFileno := by
        rintro empty rfl
        rw [stdin] at empty
        cases empty
      rw [stageTable, set_empty, set_empty]
      tauto

section Stages

variable {base : FdTable} {input : Desc} {readEnd writeEnd copy : Nat}
  (slots : Slots base readEnd writeEnd copy) (stdin : base[stdinFileno]? = some (some input))

include slots stdin

/-- No slot is a standard stream that is in use: the first one may be the standard output. -/
theorem Slots.beyond : readEnd ≠ 0 ∧ writeEnd ≠ 0 ∧ copy ≠ 0 ∧ writeEnd ≠ 1 ∧ copy ≠ 1 := by
  have order := slots.order
  have used : readEnd ≠ 0 := by
    rintro rfl
    have empty := slots.empty.1
    rw [show base[0]? = some (some input) from stdin] at empty
    cases empty
  omega

theorem Slots.inside : readEnd < base.length ∧ writeEnd < base.length ∧ copy < base.length ∧
    0 < base.length ∧ 1 < base.length := by
  have beyond := slots.beyond stdin
  obtain ⟨emptyRead, emptyWrite, emptyCopy⟩ := slots.empty
  have inRead := (List.getElem?_eq_some_iff.mp emptyRead).1
  have inWrite := (List.getElem?_eq_some_iff.mp emptyWrite).1
  have inCopy := (List.getElem?_eq_some_iff.mp emptyCopy).1
  omega

variable (pipes : Nat)

/-- `pipe` takes the first two slots. -/
theorem pipe_stage (env : Env W) (creates : ∀ world, env.canPipe world = true) {os : Os W} {k : Nat}
    (table : os.fds = stageTable base input copy pipes k) (created : os.pipes = pipes + k) :
    os.pipe env = (some (some readEnd, some writeEnd),
      { os with
        fds := openTable readEnd writeEnd pipes (stageTable base input copy pipes k) k
        pipes := os.pipes + 1 }) := by
  have order := slots.order
  have empty := stageTable_empty stdin copy pipes k
  have first : ∀ m, (stageTable base input copy pipes k)[m]? = some none → m < copy →
      m = readEnd ∨ m = writeEnd := by
    intro m isEmpty less
    exact slots.lowest m less ((empty m).mp isEmpty).1
  have takesRead := install_eq ((empty readEnd).mpr ⟨slots.empty.1, fun _ => by omega⟩)
    (fun m less isEmpty => by have := first m isEmpty (by omega); omega) (.pipeRead (pipes + k))
  have emptyWrite : ((stageTable base input copy pipes k).set readEnd
      (some (.pipeRead (pipes + k))))[writeEnd]? = some none :=
    (set_empty _).mpr ⟨by omega, (empty writeEnd).mpr ⟨slots.empty.2.1, fun _ => by omega⟩⟩
  have takesWrite := install_eq emptyWrite
    (fun m less isEmpty => by
      obtain ⟨other, isEmpty⟩ := (set_empty _).mp isEmpty
      have := first m isEmpty (by omega)
      omega) (.pipeWrite (pipes + k))
  rw [Os.pipe, table, created, takesRead]
  dsimp only
  rw [takesWrite]
  dsimp only
  rw [if_pos ⟨creates _, rfl⟩]
  rfl

/-- The saved input is put back. -/
theorem restore_openTable (k : Nat) :
    ((openTable readEnd writeEnd pipes (stageTable base input copy pipes (k + 1)) (k + 1)).set
        stdinFileno (some input)).set copy none =
      openTable readEnd writeEnd pipes base (k + 1) := by
  obtain ⟨zeroRead, zeroWrite, zeroCopy, -, -⟩ := slots.beyond stdin
  have order := slots.order
  have inside := slots.inside stdin
  have emptyCopy := slots.empty.2.2
  simp only [stdinFileno] at stdin ⊢
  refine List.ext_getElem? fun i => ?_
  simp only [openTable, stageTable, stdinFileno, List.getElem?_set, List.length_set]
  grind

theorem restore_stageTable (k : Nat) :
    ((stageTable base input copy pipes (k + 1)).set stdinFileno (some input)).set copy none =
      base := by
  obtain ⟨zeroRead, zeroWrite, zeroCopy, -, -⟩ := slots.beyond stdin
  have inside := slots.inside stdin
  have emptyCopy := slots.empty.2.2
  simp only [stdinFileno] at stdin ⊢
  refine List.ext_getElem? fun i => ?_
  simp only [stageTable, stdinFileno, List.getElem?_set, List.length_set]
  grind

/-- The read end is put in the place of the standard input. -/
theorem readEnd_openTable (k : Nat) :
    (((((openTable readEnd writeEnd pipes base k).set copy (some input)).set stdinFileno none).set
        stdinFileno (some (.pipeRead (pipes + k)))).set readEnd none).set writeEnd none =
      stageTable base input copy pipes (k + 1) := by
  obtain ⟨zeroRead, zeroWrite, zeroCopy, -, -⟩ := slots.beyond stdin
  have order := slots.order
  have inside := slots.inside stdin
  have empty := slots.empty
  simp only [stdinFileno] at stdin ⊢
  refine List.ext_getElem? fun i => ?_
  simp only [openTable, stageTable, stdinFileno, List.getElem?_set, List.length_set]
  grind

end Stages

/-! ## One call of `run_pipe` -/

theorem get_of_getElem? {fds : FdTable} {n : Nat} {entry : Option Desc}
    (found : fds[n]? = some entry) : get fds (some n) = entry := by
  rw [FdTable.get, Option.bind_some, found]
  rfl

/-- A process whose input is saved gets it back. -/
theorem restoreStd_copy {s : State W} {copy : Nat} {input : Desc} (other : copy ≠ stdinFileno)
    (inout : s.inout = (some copy, some stdoutFileno))
    (held : get s.os.fds (some copy) = some input) :
    s.restoreStd =
      { s with
        os := s.os.setFds ((s.os.fds.set stdinFileno (some input)).set copy none)
        inout := (some stdinFileno, some stdoutFileno) } := by
  have out : s.restoreStdout = s := by
    rw [State.restoreStdout]
    rw [inout]
    exact if_neg (not_not.mpr rfl)
  have back : FdTable.dup2 s.os.fds (some copy) stdinFileno =
      s.os.fds.set stdinFileno (some input) := by rw [FdTable.dup2, held]
  rw [State.restoreStd, out, State.restoreStdin]
  rw [inout, if_pos (by simpa using other)]
  rw [Os.dup2, back]
  rfl

section Calls

variable (base : FdTable) (input : Desc) (copy pipes : Nat)

/-- The shell after `run_pipe` on `k` commands. -/
structure AtStage (k : Nat) (s : State W) : Prop where
  fds : s.os.fds = stageTable base input copy pipes k
  inout : s.inout = (some (if k = 0 then stdinFileno else copy), some stdoutFileno)
  created : s.os.pipes = pipes + k
  runs : s.conditionalRun = true

variable {base input copy pipes} {readEnd writeEnd : Nat}
  (slots : Slots base readEnd writeEnd copy) (stdin : base[stdinFileno]? = some (some input))

include slots stdin

theorem AtStage.restoreStd_open {k : Nat} {s : State W}
    (fds : s.os.fds = openTable readEnd writeEnd pipes (stageTable base input copy pipes k) k)
    (inout : s.inout = (some (if k = 0 then stdinFileno else copy), some stdoutFileno)) :
    s.restoreStd =
      { s with
        os := s.os.setFds (openTable readEnd writeEnd pipes base k)
        inout := (some stdinFileno, some stdoutFileno) } := by
  cases k with
  | zero =>
      have std : s.Std := inout
      have same : openTable readEnd writeEnd pipes base 0 = s.os.fds := fds.symm
      have saved : s.inout = (some stdinFileno, some stdoutFileno) := std
      rw [restoreStd_of_std std, same, ← saved]
      rfl
  | succ k =>
      have beyond := slots.beyond stdin
      have order := slots.order
      have inside := slots.inside stdin
      have held : get s.os.fds (some copy) = some input := by
        rw [fds]
        refine get_of_getElem? ?_
        simp only [openTable, stageTable, stdinFileno, List.getElem?_set, List.length_set]
        grind
      rw [restoreStd_copy beyond.2.2.1 inout held, fds, restore_openTable slots stdin]

/-- The parent gives its standard input to the next command. -/
theorem readPipe_stage {k : Nat} {s : State W} (std : s.Std)
    (fds : s.os.fds = openTable readEnd writeEnd pipes base k) :
    readPipe s (some readEnd) (some writeEnd) =
      { s with
        os := s.os.setFds (stageTable base input copy pipes (k + 1))
        inout := (some copy, some stdoutFileno) } := by
  obtain ⟨zeroRead, zeroWrite, zeroCopy, -, -⟩ := slots.beyond stdin
  have order := slots.order
  have inside := slots.inside stdin
  obtain ⟨emptyRead, emptyWrite, emptyCopy⟩ := slots.empty
  have saved : s.inout = (some stdinFileno, some stdoutFileno) := std
  have isInput : get s.os.fds (some stdinFileno) = some input := by
    rw [fds]
    refine get_of_getElem? ?_
    simp only [openTable, stdinFileno, List.getElem?_set, List.length_set] at stdin ⊢
    grind
  have copied : FdTable.dup s.os.fds (some stdinFileno) =
      (some copy, (openTable readEnd writeEnd pipes base k).set copy (some input)) := by
    rw [FdTable.dup, isInput, fds]
    refine install_eq ?_ (fun m less isEmpty => ?_) input
    · rw [openTable, set_empty, set_empty]
      exact ⟨by omega, by omega, emptyCopy⟩
    · rw [openTable, set_empty, set_empty] at isEmpty
      have := slots.lowest m less isEmpty.2.2
      omega
  have isRead : get (((openTable readEnd writeEnd pipes base k).set copy (some input)).set
      stdinFileno none) (some readEnd) = some (.pipeRead (pipes + k)) := by
    refine get_of_getElem? ?_
    simp only [openTable, stdinFileno, List.getElem?_set, List.length_set]
    grind
  have final := readEnd_openTable slots stdin pipes k
  rw [readPipe]
  rw [saved, Os.dup, copied]
  simp only [Os.dup2, Os.close, Os.setFds, FdTable.close, FdTable.dup2, isRead, final]

/-- **One call of `run_pipe`.** -/
theorem runPipe_stage {env : Env W} (forks : ∀ world, env.canFork world = true)
    (creates : ∀ world, env.canPipe world = true) {k : Nat} {s : State W}
    (stage : AtStage base input copy pipes k s) {command : Command} (nonempty : command ≠ []) :
    ∃ s', runPipe env s command = .ok (true, s') ∧ AtStage base input copy pipes (k + 1) s' ∧
      s'.os.log = s.os.log ++
        [.launch command (childTable base input readEnd writeEnd copy pipes k)] := by
  obtain ⟨fds, inout, created, runs⟩ := stage
  obtain ⟨zeroRead, zeroWrite, zeroCopy, oneWrite, oneCopy⟩ := slots.beyond stdin
  have order := slots.order
  have inside := slots.inside stdin
  have opened := pipe_stage slots stdin pipes env creates fds created
  have isWrite : get (openTable readEnd writeEnd pipes (stageTable base input copy pipes k) k)
      (some writeEnd) = some (.pipeWrite (pipes + k)) := by
    refine get_of_getElem? ?_
    have length : (stageTable base input copy pipes k).length = base.length := by
      cases k <;> simp [stageTable]
    rw [openTable, List.getElem?_set_self (by rw [List.length_set, length]; omega)]
  -- The child, and the parent up to its own part of the pipe.
  generalize table : openTable readEnd writeEnd pipes (stageTable base input copy pipes k) k =
    fds' at opened isWrite
  let s₁ : State W := { s with os := { s.os with fds := fds', pipes := s.os.pipes + 1 } }
  have child : childFds s₁ (some (some readEnd, some writeEnd)) =
      childTable base input readEnd writeEnd copy pipes k := by
    simp only [childFds, s₁, inout, if_true, FdTable.dup2, FdTable.close, isWrite, childTable,
      table]
  let started : State W :=
    { s₁ with
      os :=
        { s₁.os with
          log := s.os.log ++ [.launch command (childTable base input readEnd writeEnd copy pipes k)]
          world := pipedChild env s₁ command
            (childTable base input readEnd writeEnd copy pipes k) } }
  have restored := AtStage.restoreStd_open slots stdin (s := started) table.symm inout
  have restoredFds : started.restoreStd.os.fds = openTable readEnd writeEnd pipes base k := by
    rw [restored]
    rfl
  have reads := readPipe_stage slots stdin (restoreStd_std started) restoredFds
  refine ⟨readPipe started.restoreStd (some readEnd) (some writeEnd), ?_, ?_, ?_⟩
  · rw [runPipe, runCommand2]
    rw [if_neg (by simp [nonempty, runs]), if_pos rfl, opened]
    have forked : forkCommand env s₁ command (some (some readEnd, some writeEnd)) =
        .ok (readPipe started.restoreStd (some readEnd) (some writeEnd)) := by
      rw [forkCommand]
      rw [forks, child]
      rfl
    change (forkCommand env s₁ command _ >>= fun s => .ok (true, s)) = _
    rw [forked]
    rfl
  · rw [reads, restored]
    exact ⟨rfl, rfl, by simp only [started, s₁, Os.setFds, created]; omega, runs⟩
  · rw [reads, restored]
    rfl

/-- The children of a pipeline that have been launched from stage `k` on. -/
theorem runPipes_stage {env : Env W} (forks : ∀ world, env.canFork world = true)
    (creates : ∀ world, env.canPipe world = true) {piped : List Command}
    (nonempty : ∀ command ∈ piped, command ≠ []) {k : Nat} {s : State W}
    (stage : AtStage base input copy pipes k s) :
    ∃ s', runPipes env s piped = .ok s' ∧ AtStage base input copy pipes (k + piped.length) s' ∧
      s'.os.log = s.os.log ++ piped.mapIdx fun i command =>
        .launch command (childTable base input readEnd writeEnd copy pipes (k + i)) := by
  induction piped generalizing k s with
  | nil => exact ⟨s, rfl, stage, (List.append_nil _).symm⟩
  | cons command piped ih =>
      obtain ⟨s₁, piped₁, stage₁, log₁⟩ := runPipe_stage slots stdin forks creates stage
        (nonempty command List.mem_cons_self)
      obtain ⟨s', rest, stage', log'⟩ := ih
        (fun command member => nonempty command (List.mem_cons_of_mem _ member)) stage₁
      refine ⟨s', ?_, ?_, ?_⟩
      · rw [runPipes, piped₁]
        exact rest
      · rw [List.length_cons, Nat.add_comm piped.length 1, ← Nat.add_assoc]
        exact stage'
      · rw [log', log₁, List.mapIdx_cons, List.append_assoc, List.singleton_append]
        simp only [Nat.add_zero, Nat.add_assoc, Nat.add_comm 1]

theorem AtStage.restoreStd {k : Nat} {s : State W} (stage : AtStage base input copy pipes k s) :
    s.restoreStd.os.fds = base := by
  obtain ⟨fds, inout, -, -⟩ := stage
  cases k with
  | zero =>
      have std : s.Std := inout
      rw [restoreStd_of_std std]
      exact fds
  | succ k =>
      have beyond := slots.beyond stdin
      have inside := slots.inside stdin
      have held : get s.os.fds (some copy) = some input := by
        rw [fds]
        refine get_of_getElem? ?_
        simp only [stageTable, stdinFileno, List.getElem?_set, List.length_set]
        grind
      rw [restoreStd_copy beyond.2.2.1 inout held, fds]
      exact restore_stageTable slots stdin pipes k

end Calls

/-! ## The last command -/

/-- The last command runs with the descriptors of the shell. -/
theorem runCommand_last {env : Env W} (forks : ∀ world, env.canFork world = true) {s : State W}
    (runs : s.conditionalRun = true) {command : Command} (nonempty : command ≠ []) :
    ∃ events, resultLog (finish env s command) = s.os.log ++ events ∧
      executed events = [(command, s.os.fds)] ∧
        children events = if (findBuiltin command).isSome then [] else [(command, s.os.fds)] := by
  have execute : ¬ (command = [] ∨ s.conditionalRun = false) := by simp [runs, nonempty]
  refine ⟨executionEvents s.os.fds command, finish_executed env execute fun _ => forks _, ?_, ?_⟩
  · rw [executionEvents]
    split <;> rfl
  · rw [executionEvents]
    split <;> rfl

/-! ## The whole pipeline -/

theorem not_mem_set {α : Type} {list : List α} {a b : α} {i : Nat} (absent : a ∉ list)
    (other : a ≠ b) : a ∉ list.set i b := by
  intro member
  rcases List.mem_or_eq_of_mem_set member with member | same
  · exact absent member
  · exact other same

section Connections

variable {s : State W} {input : Desc} {readEnd writeEnd copy : Nat}
  (stdin : s.os.fds[stdinFileno]? = some (some input)) (created : s.os.PipesCreated)

include stdin created

/-- The shell keeps no write end between two calls. -/
theorem stageTable_alone (k j : Nat) : some (.pipeWrite (s.os.pipes + j)) ∉
    stageTable s.os.fds input copy s.os.pipes k := by
  have fresh : some (.pipeWrite (s.os.pipes + j)) ∉ s.os.fds := by
    intro member
    have less := created _ (.inr member)
    omega
  have other : some (.pipeWrite (s.os.pipes + j)) ≠ some input := by
    intro same
    exact fresh (same ▸ List.mem_of_getElem? stdin)
  cases k with
  | zero => exact fresh
  | succ k => exact not_mem_set (not_mem_set fresh other) (by simp)

variable (slots : Slots s.os.fds readEnd writeEnd copy)

include slots

theorem connected_last (k : Nat) :
    Connected s (k + 1) k (stageTable s.os.fds input copy s.os.pipes k) where
  stdin := by
    have inside := slots.inside stdin
    cases k with
    | zero => rfl
    | succ k =>
        refine get_of_getElem? ?_
        rw [stageTable, List.getElem?_set_self (by rw [List.length_set]; exact inside.2.2.2.1)]
        rfl
  stdout := by
    have beyond := slots.beyond stdin
    rw [if_pos rfl]
    cases k with
    | zero => rfl
    | succ k =>
        simp only [stageTable, FdTable.get, Option.bind_some, stdoutFileno, stdinFileno]
        rw [List.getElem?_set_ne (by omega), List.getElem?_set_ne (by omega)]
  alone := fun j _ _ => stageTable_alone stdin created k j

theorem connected_child {k count : Nat} (piped : k + 1 < count) :
    Connected s count k (childTable s.os.fds input readEnd writeEnd copy s.os.pipes k) where
  stdin := by
    have beyond := slots.beyond stdin
    have last := (connected_last stdin created slots k).stdin
    rw [← last]
    simp only [childTable, openTable, FdTable.get, Option.bind_some, stdoutFileno, stdinFileno]
    rw [List.getElem?_set_ne (by omega), List.getElem?_set_ne (by omega),
      List.getElem?_set_ne (by omega), List.getElem?_set_ne (by omega)]
  stdout := by
    have beyond := slots.beyond stdin
    have inside := slots.inside stdin
    have length : (stageTable s.os.fds input copy s.os.pipes k).length = s.os.fds.length := by
      cases k <;> simp [stageTable]
    rw [if_neg (by omega)]
    refine get_of_getElem? ?_
    simp only [childTable, openTable, stdoutFileno]
    rw [List.getElem?_set_ne (by omega), List.getElem?_set_self]
    rw [List.length_set, List.length_set, length]
    exact inside.2.2.2.2
  alone := by
    intro j _ other
    have different : some (Desc.pipeWrite (s.os.pipes + j)) ≠
        some (.pipeWrite (s.os.pipes + k)) := by
      intro same
      have index := Desc.pipeWrite.inj (Option.some.inj same)
      omega
    have kept : some (.pipeWrite (s.os.pipes + j)) ∉ stageTable s.os.fds input copy s.os.pipes k :=
      stageTable_alone stdin created k j
    have readable : some (Desc.pipeWrite (s.os.pipes + j)) ≠
        some (.pipeRead (s.os.pipes + k)) := by
      simp
    have opened : some (.pipeWrite (s.os.pipes + j)) ∉ openTable readEnd writeEnd s.os.pipes
        (stageTable s.os.fds input copy s.os.pipes k) k :=
      not_mem_set (not_mem_set kept readable) different
    exact not_mem_set (not_mem_set opened different) (Option.some_ne_none _)

end Connections

theorem executed_append (log log' : List Event) :
    executed (log ++ log') = executed log ++ executed log' := List.filterMap_append

theorem executed_launches (piped : List Command) (tables : Nat → FdTable) :
    executed (piped.mapIdx fun i command => .launch command (tables i)) =
        piped.mapIdx (fun i command => (command, tables i)) ∧
      children (piped.mapIdx fun i command => .launch command (tables i)) =
        piped.mapIdx (fun i command => (command, tables i)) := by
  induction piped generalizing tables with
  | nil => exact ⟨rfl, rfl⟩
  | cons command piped ih =>
      obtain ⟨processes, launched⟩ := ih fun i => tables (i + 1)
      simp only [List.mapIdx_cons]
      exact ⟨congrArg _ processes, congrArg _ launched⟩

/-- The processes of a pipeline from their tables. -/
theorem plumbed_of_connected {s : State W} {piped : List Command} {last : Command}
    {tables : Nat → FdTable} {lastTable : FdTable}
    (pipes : ∀ i < piped.length, Connected s (piped.length + 1) i (tables i))
    (ends : Connected s (piped.length + 1) piped.length lastTable) :
    Plumbed s (piped ++ [last])
      (piped.mapIdx (fun i command => (command, tables i)) ++ [(last, lastTable)]) where
  words := by
    have commands : (piped.mapIdx fun i command => (command, tables i)).map Prod.fst = piped := by
      refine List.ext_getElem? fun i => ?_
      rw [List.getElem?_map, List.getElem?_mapIdx]
      cases piped[i]? <;> rfl
    rw [List.map_append, commands]
    rfl
  connected := by
    intro i process found
    have count : (piped ++ [last]).length = piped.length + 1 := by simp
    rw [count]
    by_cases before : i < piped.length
    · rw [List.getElem?_append_left (by simpa using before), List.getElem?_mapIdx,
        List.getElem?_eq_getElem before] at found
      cases found
      exact pipes i before
    · obtain ⟨inside, -⟩ := List.getElem?_eq_some_iff.mp found
      simp only [List.length_append, List.length_mapIdx, List.length_singleton] at inside
      obtain rfl : i = piped.length := by omega
      rw [List.getElem?_append_right (by simp), List.length_mapIdx, Nat.sub_self] at found
      cases found
      exact ends

section Pipeline

variable {env : Env W} (forks : ∀ world, env.canFork world = true) {s : State W} (std : s.Std)
  (runs : s.conditionalRun = true) (created : s.os.PipesCreated)

include forks std runs created

/-- `run_pipe` on the commands of a pipeline: the children that it launches and the descriptors
of the shell afterwards. -/
theorem runPipes_spec {piped : List Command} (nonempty : ∀ command ∈ piped, command ≠ [])
    (calls : piped ≠ [] → PipesSucceed env s) :
    ∃ s' : State W, ∃ tables : Nat → FdTable,
      runPipes env s piped = .ok s' ∧ s'.conditionalRun = true ∧
      s'.restoreStd.os.fds = s.os.fds ∧
      s'.os.log = s.os.log ++ piped.mapIdx (fun i command => .launch command (tables i)) ∧
      (∀ i < piped.length, Connected s (piped.length + 1) i (tables i)) ∧
      Connected s (piped.length + 1) piped.length s'.os.fds ∧
      ∀ j, some (.pipeWrite (s.os.pipes + j)) ∉ s'.os.fds := by
  by_cases empty : piped = []
  · subst empty
    have fresh : ∀ j, some (.pipeWrite (s.os.pipes + j)) ∉ s.os.fds := by
      intro j member
      have less := created _ (.inr member)
      omega
    refine ⟨s, fun _ => [], rfl, runs, ?_, (List.append_nil _).symm, nofun, ⟨rfl, rfl, ?_⟩, fresh⟩
    · rw [restoreStd_of_std std]
    · exact fun j _ _ => fresh j
  · obtain ⟨creates, isOpen, room⟩ := calls empty
    obtain ⟨readEnd, writeEnd, copy, slots⟩ := exists_slots room
    obtain ⟨input, stdin⟩ : ∃ input, s.os.fds[stdinFileno]? = some (some input) := by
      have inside := FdTable.lt_of_get isOpen
      rw [FdTable.get, Option.bind_some, List.getElem?_eq_getElem inside,
        Option.join_some] at isOpen
      obtain ⟨input, found⟩ := Option.ne_none_iff_exists'.mp isOpen
      exact ⟨input, by rw [List.getElem?_eq_getElem inside, found]⟩
    have start : AtStage s.os.fds input copy s.os.pipes 0 s := ⟨rfl, std, rfl, runs⟩
    obtain ⟨s', ran, stage, log⟩ := runPipes_stage slots stdin forks creates nonempty start
    have back := stage.restoreStd slots stdin
    simp only [Nat.zero_add] at stage log
    have last := connected_last stdin created slots piped.length
    refine ⟨s', _, ran, stage.runs, back, log, fun i less => ?_, ?_, fun j => ?_⟩
    · exact connected_child stdin created slots (Nat.succ_lt_succ less)
    · rw [stage.fds]
      exact last
    · rw [stage.fds]
      exact stageTable_alone stdin created _ j

/-- **The plumbing of a pipeline.** Each of its processes reads the pipe that the one before it
writes, the first one the standard input of the shell, and the last one writes to the standard
output of the shell. After `run_pipe` on a command, its child alone holds the write end of its
pipe: neither the shell nor any other child has it. When the last command has returned, the shell
has the descriptors and the saved streams it has started with. A builtin command that ends a
pipeline is run by the shell itself, and `exit` does not return. -/
theorem runPipeline_plumbing (piped : List Command) (last : Command)
    (nonempty : ∀ command ∈ piped ++ [last], command ≠ [])
    (calls : piped ≠ [] → PipesSucceed env s) :
    (∃ events, resultLog (runPipeline env s piped last) = s.os.log ++ events ∧
        Plumbed s (piped ++ [last]) (executed events) ∧
        children events = if (findBuiltin last).isSome then (executed events).dropLast
          else executed events) ∧
      (∀ i ≤ piped.length, ∃ s', runPipes env s (piped.take i) = .ok s' ∧
        ∀ j < i, some (.pipeWrite (s.os.pipes + j)) ∉ s'.os.fds) ∧
      (findBuiltin last ≠ some .exit → ∃ s', runPipeline env s piped last = .ok s') ∧
      ∀ s', runPipeline env s piped last = .ok s' → s'.os.fds = s.os.fds ∧ s'.inout = s.inout := by
  have isCommand : ∀ command ∈ piped, command ≠ [] := fun command member =>
    nonempty command (List.mem_append_left _ member)
  have isLast : last ≠ [] := nonempty last (by simp)
  obtain ⟨s₁, tables, ran, runs₁, back, log, pipes, ends, -⟩ :=
    runPipes_spec forks std runs created isCommand calls
  have finishes : runPipeline env s piped last = finish env s₁ last := by
    rw [runPipeline, ran, finish]
    dsimp only [bind, Except.bind]
    cases runCommand env s₁ last <;> rfl
  rw [finishes]
  refine ⟨?_, fun i _ => ?_, fun stays => ?_, fun s' ended => ?_⟩
  · obtain ⟨events, log', one, launched⟩ := runCommand_last forks runs₁ isLast
    obtain ⟨processes, launches⟩ := executed_launches piped tables
    refine ⟨_, by rw [log', log, List.append_assoc], ?_, ?_⟩
    · rw [executed_append, processes, one]
      exact plumbed_of_connected pipes ends
    · rw [executed_append, children, List.filterMap_append]
      rw [← children, ← children, launches, launched, processes, one]
      cases findBuiltin last <;> simp
  · have calls' : piped.take i ≠ [] → PipesSucceed env s := by
      intro some
      refine calls fun none => some ?_
      rw [none, List.take_nil]
    obtain ⟨s', -, ran', -, -, -, -, -, alone⟩ := runPipes_spec forks std runs created
      (fun command member => isCommand command (List.mem_of_mem_take member)) calls'
    exact ⟨s', ran', fun j _ => alone j⟩
  · exact finish_returns env stays forks
  · obtain ⟨fds, inout⟩ := finish_fds env ended
    have saved : s.inout = (some stdinFileno, some stdoutFileno) := std
    exact ⟨fds.trans back, inout.trans ((restoreStd_std s₁).trans saved.symm)⟩

end Pipeline

theorem sampleState_pipesCreated : sampleState.os.PipesCreated := by
  intro index member
  simp [sampleState] at member

theorem sampleState_pipesSucceed : PipesSucceed sampleEnv sampleState where
  pipes := fun _ => rfl
  stdin := by decide
  room := by decide

/-- A pipeline of three commands. -/
theorem runPipeline_plumbing_three :
    let piped := [["a".toList], ["b".toList]]
    let last := ["c".toList]
    (sampleState.Std ∧ sampleState.conditionalRun = true ∧ sampleState.os.PipesCreated ∧
        (∀ command ∈ piped ++ [last], command ≠ []) ∧ PipesSucceed sampleEnv sampleState) ∧
      ∃ s', runPipeline sampleEnv sampleState piped last = .ok s' ∧
        s'.os.fds = sampleState.os.fds ∧ s'.inout = sampleState.inout := by
  intro piped last
  have nonempty : ∀ command ∈ piped ++ [last], command ≠ [] := by decide +kernel
  have forks : ∀ world, sampleEnv.canFork world = true := fun _ => rfl
  have std : sampleState.Std := rfl
  obtain ⟨-, -, returns, restored⟩ := runPipeline_plumbing forks std rfl sampleState_pipesCreated
    piped last nonempty fun _ => sampleState_pipesSucceed
  obtain ⟨s', ended⟩ := returns (by decide +kernel)
  exact ⟨⟨std, rfl, sampleState_pipesCreated, nonempty, sampleState_pipesSucceed⟩,
    s', ended, restored s' ended⟩

end OsTasks.Shell
