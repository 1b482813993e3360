import OsTasks.Shell.Os

/-!
# Running a command

A translation of `run_builtin`, `restore_std` and `run_command2` of `shell.c`, with the
builtins `cd`, `exit` and `status`.

The static variables `error`, `inout` and `conditional_run` make up the state of the shell,
together with the process as the kernel sees it. A call returns, or the process stops:
it exits, or it does something that has no defined behaviour.
-/

set_option autoImplicit false

namespace OsTasks.Shell

variable {W : Type}

/-- The state of the shell. `inout` holds the descriptors that stand for the standard
streams of the shell while these are redirected. -/
structure State (W : Type) where
  os : Os W
  error : Int
  inout : Fd × Fd
  conditionalRun : Bool

/-- The process does not return to its caller. -/
inductive Stop (W : Type) where
  | exited (status : Int) (s : State W)
  /-- Undefined behaviour: a `NULL` pointer is used, or an array is left. -/
  | fault (s : State W)
  /-- A loop that does not end. -/
  | spin

namespace State

/-- Change what the kernel keeps. -/
def setOs (s : State W) (change : Os W → Os W) : State W := { s with os := change s.os }

/-! ## Restoring the streams -/

/-- `restore_std` for `inout[1]`. -/
def restoreStdout (s : State W) : State W :=
  if s.inout.2 ≠ some stdoutFileno then
    { s with
      os := (s.os.dup2 s.inout.2 stdoutFileno).close s.inout.2
      inout := (s.inout.1, some stdoutFileno) }
  else s

/-- `restore_std` for `inout[0]`. -/
def restoreStdin (s : State W) : State W :=
  if s.inout.1 ≠ some stdinFileno then
    { s with
      os := (s.os.dup2 s.inout.1 stdinFileno).close s.inout.1
      inout := (some stdinFileno, s.inout.2) }
  else s

/-- `restore_std`. -/
def restoreStd (s : State W) : State W := s.restoreStdout.restoreStdin

end State

/-! ## Builtins -/

/-- The table `builtins`. -/
inductive Builtin where
  | cd
  | exit
  | status
  deriving DecidableEq, Repr

/-- The name in the table. -/
def Builtin.name : Builtin → Text
  | .cd => "cd".toList
  | .exit => "exit".toList
  | .status => "status".toList

/-- The entries of the table in their order. -/
def builtins : List Builtin := [.cd, .exit, .status]

/-- The entry of the table with the name of the command. -/
def findBuiltin (argv : List Text) : Option Builtin :=
  builtins.find? fun b => some b.name == argv.head?

variable (env : Env W)

/-- `builtin_cd`: the status and the world afterwards. -/
def builtinCd (world : W) (argv : List Text) : Int × W :=
  match argv with
  | _ :: directory :: _ => env.chdir world directory
  | _ => (1, world)

/-- Call the function of a builtin and set `error`. -/
def callBuiltin (s : State W) (argv : List Text) : Builtin → Except (Stop W) (State W)
  | .cd =>
      let (status, world) := builtinCd env s.os.world argv
      .ok { s with os := { s.os with world := world }, error := status }
  | .exit => .error (.exited s.error s)
  | .status =>
      let world := env.printStatus s.os.world (FdTable.get s.os.fds (some stdoutFileno)) s.error
      .ok { s with os := { s.os with world := world }, error := 0 }

/-- `run_builtin` in the shell itself. `none` when the command is not a builtin one. -/
def runBuiltin (s : State W) (argv : List Text) : Option (Except (Stop W) (State W)) :=
  (findBuiltin argv).map fun b =>
    callBuiltin env (s.setOs fun os => os.record (.builtin argv os.fds)) argv b

/-! ## Children -/

/-- The descriptors of the child: with a pipe, its standard output goes into the pipe
unless it is redirected. -/
def childFds (s : State W) : Option (Fd × Fd) → FdTable
  | none => s.os.fds
  | some (_, writeEnd) =>
      if s.inout.2 = some stdoutFileno then
        FdTable.close (FdTable.dup2 s.os.fds writeEnd stdoutFileno) writeEnd
      else s.os.fds

/-- The world while a child in a pipeline runs. A builtin command in a child changes nothing
but what it prints. -/
def pipedChild (s : State W) (argv : List Text) (fds : FdTable) : W :=
  match findBuiltin argv with
  | some .status => env.printStatus s.os.world (FdTable.get fds (some stdoutFileno)) s.error
  | some .cd | some .exit => s.os.world
  | none => env.startChild s.os.world argv fds

/-- The parent of a child in a pipeline: its standard input is the pipe from now on. -/
def readPipe (s : State W) (readEnd writeEnd : Fd) : State W :=
  let (saved, os) := s.os.dup s.inout.1
  let os := os.close s.inout.1
  let os := ((os.dup2 readEnd stdinFileno).close readEnd).close writeEnd
  { s with os := os, inout := (saved, s.inout.2) }

/-- `run_command2` from the `fork` on. -/
def forkCommand (s : State W) (argv : List Text) (pip : Option (Fd × Fd)) :
    Except (Stop W) (State W) :=
  if !env.canFork s.os.world then .error (.exited 1 s)
  else
    let fds := childFds s pip
    let launched := s.setOs fun os => os.record (.launch argv fds)
    match pip with
    | some (readEnd, writeEnd) =>
        let started := launched.setOs fun os => { os with world := pipedChild env s argv fds }
        .ok (readPipe started.restoreStd readEnd writeEnd)
    | none =>
        let restored := launched.restoreStd
        let (status, world) := env.runChild restored.os.world argv fds
        .ok { restored with os := { restored.os with world := world }.record .wait, error := status }

/-- `run_command2`, with whether its return value is not 0. -/
def runCommand2 (s : State W) (argv : List Text) (pipeEnable : Bool) :
    Except (Stop W) (Bool × State W) :=
  if argv = [] ∨ !s.conditionalRun then .ok (true, s.restoreStd)
  else if pipeEnable then
    match s.os.pipe env with
    | (none, os) => .ok (false, { s with os := os, error := 1 })
    | (some pip, os) => do
        let s ← forkCommand env { s with os := os } argv (some pip)
        .ok (true, s)
  else
    match runBuiltin env s argv with
    | some result => do
        let s ← result
        .ok (true, s.restoreStd)
    | none => do
        let s ← forkCommand env s argv none
        .ok (true, s)

/-- `run_command`. -/
def runCommand (s : State W) (argv : List Text) : Except (Stop W) (Bool × State W) :=
  runCommand2 env s argv false

/-- `run_pipe`. -/
def runPipe (s : State W) (argv : List Text) : Except (Stop W) (Bool × State W) :=
  runCommand2 env s argv true

/-! ## A small world -/

/-- A world of files in which `false` fails, every other program succeeds, and every file
can be written. -/
def sampleEnv : Env (List Text) where
  openFile files name write _ :=
    if write then (true, name :: files) else (decide (name ∈ files), files)
  getcwdmode _ := 493
  chdir files _ := (0, files)
  printStatus files _ _ := files
  canFork _ := true
  canPipe _ := true
  runChild files argv _ := (if argv.head? = some "false".toList then 256 else 0, files)
  startChild files _ _ := files

/-- A shell with three open descriptors and room for eight. -/
def sampleState : State (List Text) where
  os :=
    { world := []
      fds := [some (.inherited 0), some (.inherited 1), some (.inherited 2), none, none, none,
        none, none]
      pipes := 0
      log := [] }
  error := 0
  inout := (some stdinFileno, some stdoutFileno)
  conditionalRun := true

end OsTasks.Shell
