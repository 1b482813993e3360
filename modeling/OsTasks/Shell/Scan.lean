import OsTasks.Lib.Loop
import OsTasks.Shell.Command

/-!
# The scanner

A translation of `parseword` and `process_command` of `shell.c`. The scanner works in the
buffer of the line: it cuts the line into words by writing NULs over the delimiters, keeps
pointers to the words in `args`, and runs the commands while it scans.

A pointer into the line is an index of the buffer. The array `args` is modelled with its
100 places and the index `narg`, so that the tests of `*narg` are those of the code.
-/

set_option autoImplicit false

namespace OsTasks.Shell

open OsTasks.Lib

variable {W : Type}

/-! ## Words -/

/-- The character that ends a string. -/
def nul : Char := '\x00'

/-- `isspace` in the C locale. -/
def isspace (c : Char) : Bool := c ∈ [' ', '\t', '\n', '\x0b', '\x0c', '\r']

/-- `strchr` finds the character, or the terminating NUL. -/
def isDelimiter (c : Char) : Bool := c ∈ [' ', '\t', ';', '&', '|', '>', '<', '\n', '#', nul]

/-- `*p`. Behind the memory it is a NUL. -/
def peek (mem : List Char) (p : Nat) : Char := mem.getD p nul

/-- `for (; f(*p); p++);` -/
def skipWhile (f : Char → Bool) (mem : List Char) (p : Nat) : Nat :=
  p + ((mem.drop p).takeWhile f).length

/-- The string at an address. -/
def cstring (mem : List Char) (p : Nat) : Text := (mem.drop p).takeWhile (· ≠ nul)

/-- `parseword`: the word, unless there is none, and the delimiter after it. -/
def parseword (mem : List Char) (p : Nat) : Option Nat × Nat :=
  let word := skipWhile isspace mem p
  let p := skipWhile (fun c => !isDelimiter c) mem word
  (if p ≠ word then some word else none, p)

/-! ## The line -/

/-- The number of places of the array `args`. -/
def maxArgs : Nat := 100

/-- The local variables of `process_command`. -/
structure Line where
  mem : List Char
  p : Nat
  args : List (Option Nat)
  narg : Nat

namespace Line

/-- `narg = args; *narg = NULL;` -/
def resetArgs (l : Line) : Line := { l with args := l.args.set 0 none, narg := 0 }

/-- `*narg++ = word; *narg = NULL;`. The second store has to stay inside the array. -/
def pushArg (l : Line) (word : Nat) : Option Line :=
  if l.narg + 1 < maxArgs then
    some { l with
      args := (l.args.set l.narg (some word)).set (l.narg + 1) none, narg := l.narg + 1 }
  else none

/-- The strings up to the first `NULL` of `args`. -/
def argv (l : Line) : List Text :=
  (l.args.takeWhile Option.isSome).filterMap fun word => word.map (cstring l.mem)

/-- The increment of the loop, `p != line && p++`. -/
def advance (l : Line) : Line := if l.p ≠ 0 then { l with p := l.p + 1 } else l

end Line

/-! ## One turn of the loop -/

variable (env : Env W)

/-- Run the command that ends here and start a new one. -/
def endCommand (s : State W) (l : Line) : Except (Stop W) (State W × Line) := do
  let (returned, s) ← runCommand env s l.argv
  .ok (s, if returned then l.resetArgs else l)

/-- Put the file at `fd` in the place of a standard stream. The descriptor saved in `inout`
is a copy of the one saved there before. -/
def redirectTo (s : State W) (write : Bool) (fd : Nat) : State W :=
  if write then
    let (saved, os) := s.os.dup s.inout.2
    { s with os := (os.dup2 (some fd) stdoutFileno).close (some fd), inout := (s.inout.1, saved) }
  else
    let (saved, os) := s.os.dup s.inout.1
    { s with os := (os.dup2 (some fd) stdinFileno).close (some fd), inout := (saved, s.inout.2) }

/-- The cases `'>'` and `'<'`. A missing file name makes `strlen` read `NULL`. The end of the
file name is set to NUL and back, and `p` is left before it. -/
def redirect (s : State W) (l : Line) (write : Bool) : Except (Stop W) (State W × Line) :=
  match parseword l.mem (l.p + 1) with
  | (none, _) => .error (.fault s)
  | (some word, p) =>
      let ch := peek l.mem p
      let mem := l.mem.set p nul
      let file := cstring mem word
      let l := { l with mem := mem.set p ch, p := p - 1 }
      match s.os.openFile env file write with
      | (none, os) => .ok ({ s with os := os }, l.resetArgs)
      | (some fd, os) => .ok (redirectTo { s with os := os } write fd, l)

/-- The `switch`. The right side is a return from the function. -/
def dispatch (s : State W) (l : Line) (ch ch2 : Char) :
    Except (Stop W) ((State W × Line) ⊕ State W) :=
  if ch = '>' then do
    let next ← redirect env s l true
    .ok (.inl next)
  else if ch = '<' then do
    let next ← redirect env s l false
    .ok (.inl next)
  else if ch = '|' then
    if ch2 = '|' then do
      let (s, l) ← endCommand env s { l with p := l.p + 1 }
      .ok (.inl ({ s with conditionalRun := s.error ≠ 0 }, l))
    else if l.args.getD l.narg none = none then .ok (.inl (s, l))
    else do
      let (returned, s) ← runPipe env s l.argv
      .ok (.inl (s, if returned then l.resetArgs else l))
  else if ch = '&' then
    if ch2 = '&' then do
      let (s, l) ← endCommand env s { l with p := l.p + 1 }
      .ok (.inl ({ s with conditionalRun := s.error = 0 }, l))
    else .ok (.inl (s, l))
  else if ch = '#' ∨ ch = nul ∨ ch = '\n' then do
    let (s, _) ← endCommand env s l
    .ok (.inr s)
  else if ch = ';' then do
    let next ← endCommand env s l
    .ok (.inl next)
  else .ok (.inl (s, l))

/-- After the `switch`: the increment of the loop, unless the function returns. -/
def nextTurn : (State W × Line) ⊕ State W → (State W × Line) ⊕ State W
  | .inl (s, l) => .inl (s, l.advance)
  | .inr s => .inr s

/-- One turn of the loop of `process_command`, with its test and its increment. After the
last turn there may still be a command to run. -/
def scanTurn (state : State W × Line) : Except (Stop W) ((State W × Line) ⊕ State W) :=
  let (s, l) := state
  if peek l.mem l.p = nul then do
    let (s, _) ← endCommand env s l
    .ok (.inr s)
  else
    let (word, p) := parseword l.mem l.p
    let ch := peek l.mem p
    let ch2 := peek l.mem (p + 1)
    let l := { l with mem := l.mem.set p nul, p := p }
    match (match word with | some word => l.pushArg word | none => some l) with
    | none => .error (.fault s)
    | some l => (dispatch env s l ch ch2).map nextTurn

/-- The state in which `process_command` starts to scan. -/
def State.start (s : State W) : State W :=
  { s with inout := (some stdinFileno, some stdoutFileno), conditionalRun := true }

/-- `process_command`. -/
def processCommand (s : State W) (line : Text) : Except (Stop W) (State W) :=
  let l : Line := ⟨line ++ [nul], 0, List.replicate maxArgs none, 0⟩
  (loop (scanTurn env) (line.length + 2) (s.start, l)).getD (.error .spin)

end OsTasks.Shell
