import Mathlib.Data.List.Basic

/-!
# Descriptors and the world of the shell

The shell is one process with a table of descriptors. What lies outside of it (the files,
the working directory, the programs it starts) is a parameter (`Env`): a type of worlds, and
for every system call the shell makes what it answers and how it changes the world.

The descriptor table is modelled as the kernel keeps it: a new descriptor is the lowest
free one, and a call on a descriptor that is not open fails and changes nothing. A
descriptor is an `Option Nat`, with `none` for -1.

Every command and every `open` is recorded in a log, in the order of the calls.
-/

set_option autoImplicit false

namespace OsTasks.Shell

/-- A word, a file name or a line: characters without the terminating NUL. -/
abbrev Text := List Char

/-! ## Descriptors -/

/-- An open file description. -/
inductive Desc where
  /-- One of the files that were open when the shell started. -/
  | inherited (index : Nat)
  | file (name : Text) (write : Bool)
  | pipeRead (index : Nat)
  | pipeWrite (index : Nat)
  deriving DecidableEq, Repr

/-- A descriptor. `none` is the `-1` of a call that failed. -/
abbrev Fd := Option Nat

/-- `STDIN_FILENO`. -/
def stdinFileno : Nat := 0

/-- `STDOUT_FILENO`. -/
def stdoutFileno : Nat := 1

/-- The descriptor table of a process. Its length is the limit on descriptors. -/
abbrev FdTable := List (Option Desc)

namespace FdTable

/-- What a descriptor refers to. -/
def get (fds : FdTable) (fd : Fd) : Option Desc := fd.bind fun n => (fds[n]?).join

/-- The lowest free descriptor. -/
def free (fds : FdTable) : Fd :=
  let n := fds.findIdx Option.isNone
  if n < fds.length then some n else none

/-- Install a description at the lowest free descriptor. -/
def install (fds : FdTable) (desc : Desc) : Fd × FdTable :=
  match free fds with
  | some n => (some n, fds.set n (some desc))
  | none => (none, fds)

/-- `dup`: the copy is at the lowest free descriptor. -/
def dup (fds : FdTable) (fd : Fd) : Fd × FdTable :=
  match get fds fd with
  | some desc => install fds desc
  | none => (none, fds)

/-- `dup2`. What the target referred to is closed. -/
def dup2 (fds : FdTable) (fd : Fd) (target : Nat) : FdTable :=
  match get fds fd with
  | some desc => fds.set target (some desc)
  | none => fds

/-- `close`. -/
def close (fds : FdTable) (fd : Fd) : FdTable :=
  match fd with
  | some n => fds.set n none
  | none => fds

end FdTable

/-! ## The environment -/

/-- What the shell does and a user can observe. A command comes with its words and with
the descriptor table it runs with. -/
inductive Event where
  | opened (name : Text) (write : Bool) (fd : Fd)
  /-- A builtin command, in the shell itself. -/
  | builtin (argv : List Text) (fds : FdTable)
  /-- A child that runs a command. -/
  | launch (argv : List Text) (fds : FdTable)
  /-- The shell waits for the child it has launched last. -/
  | wait
  deriving DecidableEq, Repr

/-- The system calls, as functions of the world `W`. -/
structure Env (W : Type) where
  /-- `open`: whether the file can be opened, and the world afterwards. -/
  openFile : W → Text → (write : Bool) → (mode : Nat) → Bool × W
  /-- The mode of the working directory. -/
  getcwdmode : W → Nat
  /-- `chdir`, with its return value. -/
  chdir : W → Text → Int × W
  /-- `printf` of the last status. -/
  printStatus : W → Option Desc → Int → W
  /-- Whether the process can fork now. -/
  canFork : W → Bool
  /-- Whether a pipe can be created now. -/
  canPipe : W → Bool
  /-- A child that the shell waits for: the status `waitpid` stores, and the world when the
  child has ended. -/
  runChild : W → (argv : List Text) → FdTable → Int × W
  /-- A child that the shell does not wait for. -/
  startChild : W → (argv : List Text) → FdTable → W

/-- The process as the kernel sees it. `pipes` counts the pipes created so far. -/
structure Os (W : Type) where
  world : W
  fds : FdTable
  pipes : Nat
  log : List Event

namespace Os

variable {W : Type}

/-- Replace the descriptor table. -/
def setFds (os : Os W) (fds : FdTable) : Os W := { os with fds := fds }

/-- Add an event to the log. -/
def record (os : Os W) (event : Event) : Os W := { os with log := os.log ++ [event] }

/-- `dup`. -/
def dup (os : Os W) (fd : Fd) : Fd × Os W :=
  let (copy, fds) := FdTable.dup os.fds fd
  (copy, os.setFds fds)

/-- `dup2`. -/
def dup2 (os : Os W) (fd : Fd) (target : Nat) : Os W := os.setFds (FdTable.dup2 os.fds fd target)

/-- `close`. -/
def close (os : Os W) (fd : Fd) : Os W := os.setFds (FdTable.close os.fds fd)

/-- `open`. Without a free descriptor it fails before it looks at the file. -/
def openFile (env : Env W) (os : Os W) (name : Text) (write : Bool) : Fd × Os W :=
  match FdTable.free os.fds with
  | none => (none, os.record (.opened name write none))
  | some _ =>
      let mode := if write then env.getcwdmode os.world else 0
      let (found, world) := env.openFile os.world name write mode
      if found then
        let (fd, fds) := FdTable.install os.fds (.file name write)
        (fd, { os with world := world, fds := fds }.record (.opened name write fd))
      else (none, { os with world := world }.record (.opened name write none))

/-- `pipe`: the two ends, or a failure. -/
def pipe (env : Env W) (os : Os W) : Option (Fd × Fd) × Os W :=
  let (readEnd, fds) := FdTable.install os.fds (.pipeRead os.pipes)
  let (writeEnd, fds) := FdTable.install fds (.pipeWrite os.pipes)
  if env.canPipe os.world ∧ writeEnd.isSome then
    (some (readEnd, writeEnd), { os with fds := fds, pipes := os.pipes + 1 })
  else (none, os)

end Os

end OsTasks.Shell
