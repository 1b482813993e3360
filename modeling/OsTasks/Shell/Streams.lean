import OsTasks.Lib.Machine
import OsTasks.Shell.Process

/-!
# Redirected streams

A redirection saves the standard stream in a copy, and `restore_std` puts it back when the
command ends. Between the two the saved descriptor in `inout` is a copy of the stream that the
shell had at its start (`StreamsSaved`), however often the stream is redirected and whichever
files cannot be opened. So after every line the shell has its streams back
(`streams_restored`).

The copies are another matter. A second redirection of the same stream makes a copy of the
copy, and forgets the first one. `noLeak_iff` says that the descriptors open after a line are
those that were open before it exactly when no command redirects a stream twice
(`firstRedirect`).
-/

set_option autoImplicit false

namespace OsTasks.Shell

open OsTasks.Lib

variable {W : Type}

/-! ## The descriptor table -/

namespace FdTable

variable {fds fds' : FdTable} {n m : Nat}

theorem lt_of_get (isOpen : get fds (some n) ≠ none) : n < fds.length := by
  by_contra beyond
  refine isOpen ?_
  rw [get, Option.bind_some, List.getElem?_eq_none (Nat.le_of_not_lt beyond)]
  rfl

theorem get_set (inside : n < fds.length) (entry : Option Desc) :
    get (fds.set n entry) (some m) = if m = n then entry else get fds (some m) := by
  simp only [get, Option.bind_some, List.getElem?_set]
  by_cases same : m = n
  · subst same
    rw [if_pos rfl, if_pos rfl, if_pos inside]
    rfl
  · rw [if_neg (Ne.symm same), if_neg same]

theorem free_spec (found : free fds = some n) : n < fds.length ∧ get fds (some n) = none := by
  simp only [free] at found
  split at found
  · next inside =>
      cases found
      refine ⟨inside, ?_⟩
      have empty := List.findIdx_getElem (p := Option.isNone) (w := inside)
      rw [Option.isNone_iff_eq_none] at empty
      rw [get, Option.bind_some, List.getElem?_eq_getElem inside, empty]
      rfl
  · cases found

/-- A new descriptor was not open, and the others are left alone. -/
theorem install_spec {desc : Desc} (installed : install fds desc = (some n, fds')) :
    get fds (some n) = none ∧
      ∀ m, get fds' (some m) = if m = n then some desc else get fds (some m) := by
  rw [install] at installed
  cases found : free fds with
  | none =>
      rw [found] at installed
      cases installed
  | some k =>
      rw [found] at installed
      cases installed
      obtain ⟨inside, unused⟩ := free_spec found
      exact ⟨unused, fun m => get_set inside _⟩

theorem dup_spec {fd : Fd} (copied : dup fds fd = (some n, fds')) :
    get fds fd ≠ none ∧ get fds (some n) = none ∧
      ∀ m, get fds' (some m) = if m = n then get fds fd else get fds (some m) := by
  rw [dup] at copied
  cases found : get fds fd with
  | none =>
      rw [found] at copied
      cases copied
  | some desc =>
      rw [found] at copied
      exact ⟨Option.some_ne_none desc, install_spec copied⟩

theorem get_dup2 {fd : Fd} (isOpen : get fds fd ≠ none) (inside : n < fds.length) :
    get (dup2 fds fd n) (some m) = if m = n then get fds fd else get fds (some m) := by
  rw [dup2]
  cases found : get fds fd with
  | none => exact absurd found isOpen
  | some desc => exact get_set inside _

theorem get_close : get (close fds (some n)) (some m) = if m = n then none else get fds (some m) := by
  by_cases inside : n < fds.length
  · exact get_set inside none
  · have unchanged : fds.set n none = fds := List.set_eq_of_length_le (Nat.le_of_not_lt inside)
    rw [close, unchanged]
    split
    · next same =>
        by_contra isOpen
        exact inside (same ▸ lt_of_get isOpen)
    · rfl

end FdTable

open FdTable (get)

/-! ## One stream -/

/-- The descriptor of a standard stream: the output or the input. -/
def stream (write : Bool) : Nat := if write then stdoutFileno else stdinFileno

/-- The descriptor that stands for the stream in `inout`. -/
def saved (write : Bool) (inout : Fd × Fd) : Fd := if write then inout.2 else inout.1

theorem stream_lt (write : Bool) : stream write < 3 := by cases write <;> decide

theorem stream_not_ne (write : Bool) : stream (!write) ≠ stream write := by cases write <;> decide

section Tokens

variable (env : Env W)

/-- What a redirection of a stream leaves behind when the file is opened: a copy `n` of the saved
stream, which is saved now. -/
structure Redirected (s s' : State W) (write : Bool) (n : Nat) : Prop where
  unused : get s.os.fds (some n) = none
  stream : get s'.os.fds (some (stream write)) ≠ none
  copy : get s'.os.fds (some n) = get s.os.fds (saved write s.inout)
  others : ∀ m, m ≠ Shell.stream write → m ≠ n → get s'.os.fds (some m) = get s.os.fds (some m)
  saved : saved write s'.inout = some n
  same : Shell.saved (!write) s'.inout = Shell.saved (!write) s.inout

theorem openFile_spec {os os' : Os W} {file : Text} {write : Bool} {fd : Nat}
    (opened : os.openFile env file write = (some fd, os')) :
    get os.fds (some fd) = none ∧ get os'.fds (some fd) ≠ none ∧
      ∀ m, m ≠ fd → get os'.fds (some m) = get os.fds (some m) := by
  rw [Os.openFile] at opened
  split at opened
  · cases opened
  · generalize (if write then env.getcwdmode os.world else 0) = mode at opened
    dsimp only at opened
    split at opened
    · cases installed : FdTable.install os.fds (.file file write) with
      | mk new fds =>
          rw [installed] at opened
          cases opened
          obtain ⟨unused, table⟩ := FdTable.install_spec installed
          refine ⟨unused, ?_, fun m other => ?_⟩
          · change get fds (some fd) ≠ none
            rw [table, if_pos rfl]
            exact Option.some_ne_none _
          · change get fds (some m) = _
            rw [table, if_neg other]
    · cases opened

/-- A file that cannot be opened changes no descriptor. -/
theorem openFile_none {os os' : Os W} {file : Text} {write : Bool}
    (failed : os.openFile env file write = (none, os')) : os'.fds = os.fds := by
  rw [Os.openFile] at failed
  cases found : FdTable.free os.fds with
  | none =>
      rw [found] at failed
      cases failed
      rfl
  | some n =>
      have new : FdTable.install os.fds (.file file write) =
          (some n, os.fds.set n (some (.file file write))) := by
        rw [FdTable.install]
        rw [found]
      rw [found] at failed
      generalize (if write then env.getcwdmode os.world else 0) = mode at failed
      dsimp only at failed
      split at failed
      · rw [new] at failed
        cases failed
      · cases failed
        rfl

theorem redirectTo_eq (s : State W) (write : Bool) (fd : Nat) :
    (redirectTo s write fd).os =
        ((s.os.dup (saved write s.inout)).2.dup2 (some fd) (stream write)).close (some fd) ∧
      saved write (redirectTo s write fd).inout = (s.os.dup (saved write s.inout)).1 ∧
      saved (!write) (redirectTo s write fd).inout = saved (!write) s.inout := by
  cases write <;> exact ⟨rfl, rfl, rfl⟩

/-- The redirection of a stream, as long as `dup` succeeds. -/
theorem redirectTo_spec {s : State W} {os : Os W} {file : Text} {write : Bool} {fd i n : Nat}
    (opened : s.os.openFile env file write = (some fd, os))
    (isOpen : get s.os.fds (some (stream write)) ≠ none)
    (source : saved write s.inout = some i) (held : get s.os.fds (some i) ≠ none)
    (copied : (os.dup (saved write s.inout)).1 = some n) :
    Redirected s (redirectTo { s with os := os } write fd) write n := by
  obtain ⟨unused, fresh, before⟩ := openFile_spec env opened
  obtain ⟨after, savedNow, otherNow⟩ := redirectTo_eq { s with os := os } write fd
  have other : ∀ {m}, get s.os.fds (some m) ≠ none → m ≠ fd := by
    rintro m isOpen rfl
    exact isOpen unused
  cases result : FdTable.dup os.fds (some i) with
  | mk copy fds =>
      have dup : os.dup (some i) = (copy, os.setFds fds) := by
        rw [Os.dup]
        rw [result]
      rw [source, dup] at copied
      obtain rfl : copy = some n := copied
      obtain ⟨-, free, table⟩ := FdTable.dup_spec result
      have apart : n ≠ fd := by
        rintro rfl
        exact fresh free
      have fileOpen : get fds (some fd) ≠ none := by
        rw [table, if_neg apart.symm]
        exact fresh
      have inside : stream write < fds.length := by
        refine FdTable.lt_of_get ?_
        rw [table]
        split
        · rw [before i (other held)]
          exact held
        · rw [before _ (other isOpen)]
          exact isOpen
      have final : ∀ m, get (redirectTo { s with os := os } write fd).os.fds (some m) =
          if m = fd then none else if m = stream write then get fds (some fd)
          else get fds (some m) := by
        intro m
        rw [after]
        change get (FdTable.close (FdTable.dup2 (os.dup (saved write s.inout)).2.fds (some fd)
          (stream write)) (some fd)) (some m) = _
        rw [source, dup, FdTable.get_close]
        change (if m = fd then none else get (FdTable.dup2 fds (some fd) (stream write)) (some m)) = _
        rw [FdTable.get_dup2 fileOpen inside]
      have unusedNow : get s.os.fds (some n) = none := by
        rw [← before n apart]
        exact free
      have notStream : n ≠ stream write := by
        rintro rfl
        exact isOpen unusedNow
      refine ⟨unusedNow, ?_, ?_, fun m notM notN => ?_, ?_, otherNow⟩
      · rw [final, if_neg (other isOpen), if_pos rfl]
        exact fileOpen
      · rw [final, if_neg apart, if_neg notStream, table, if_pos rfl, source, before i (other held)]
      · rw [final]
        by_cases same : m = fd
        · rw [if_pos same, same, unused]
        · rw [if_neg same, if_neg notM, table, if_neg notN, before m same]
      · rw [savedNow]
        change (os.dup (saved write s.inout)).1 = some n
        rw [source, dup]

/-! ## The saved streams -/

/-- The invariant of a line that starts with the descriptors `base`: no descriptor of `base` is
closed, and the saved descriptors stand for the streams of `base`. A saved descriptor is the
stream itself, or one that is not in `base`. -/
structure StreamsSaved (base : FdTable) (s : State W) : Prop where
  std : ∀ n, n < 3 → get base (some n) ≠ none
  kept : ∀ n, get base (some n) ≠ none → get s.os.fds (some n) ≠ none
  copies : ∀ write, ∃ i, saved write s.inout = some i ∧
    (i = stream write ∨ get base (some i) = none) ∧
    get s.os.fds (some i) = get base (some (stream write))
  apart : saved true s.inout ≠ saved false s.inout

/-- The descriptors beyond `base` are those that are saved. -/
def Tidy (base : FdTable) (s : State W) : Prop :=
  ∀ n, get base (some n) = none → get s.os.fds (some n) ≠ none →
    ∃ write, saved write s.inout = some n

namespace StreamsSaved

variable {base : FdTable} {s s' : State W}

theorem stream_open (invariant : StreamsSaved base s) (write : Bool) :
    get s.os.fds (some (stream write)) ≠ none :=
  invariant.kept _ (invariant.std _ (stream_lt write))

theorem apart_not (invariant : StreamsSaved base s) (write : Bool) :
    saved (!write) s.inout ≠ saved write s.inout := by
  cases write
  · exact invariant.apart
  · exact invariant.apart.symm

theorem redirect (invariant : StreamsSaved base s) {write : Bool} {n : Nat}
    (redirected : Redirected s s' write n) : StreamsSaved base s' := by
  obtain ⟨i, source, -, copy⟩ := invariant.copies write
  obtain ⟨j, sourceOther, place, copyOther⟩ := invariant.copies (!write)
  have held : get s.os.fds (some j) ≠ none := by
    rw [copyOther]
    exact invariant.std _ (stream_lt _)
  have newJ : j ≠ n := by
    rintro rfl
    exact held redirected.unused
  have newBase : get base (some n) = none := by
    by_contra isOpen
    exact invariant.kept n isOpen redirected.unused
  have notStream : j ≠ stream write := by
    rcases place with rfl | fresh
    · exact stream_not_ne write
    · rintro rfl
      exact invariant.std _ (stream_lt write) fresh
  have here : ∃ i, saved write s'.inout = some i ∧ (i = stream write ∨ get base (some i) = none) ∧
      get s'.os.fds (some i) = get base (some (stream write)) := by
    refine ⟨n, redirected.saved, .inr newBase, ?_⟩
    rw [redirected.copy, source, copy]
  have there : ∃ i, saved (!write) s'.inout = some i ∧
      (i = stream (!write) ∨ get base (some i) = none) ∧
      get s'.os.fds (some i) = get base (some (stream (!write))) := by
    refine ⟨j, redirected.same.trans sourceOther, place, ?_⟩
    rw [redirected.others j notStream newJ, copyOther]
  have different : saved (!write) s'.inout ≠ saved write s'.inout := by
    rw [redirected.same, sourceOther, redirected.saved]
    exact fun same => newJ (Option.some.inj same)
  refine ⟨invariant.std, fun m isOpen => ?_, ?_, ?_⟩
  · have before := invariant.kept m isOpen
    by_cases target : m = stream write
    · rw [target]
      exact redirected.stream
    · rw [redirected.others m target fun same => before (same ▸ redirected.unused)]
      exact before
  · cases write
    · exact Bool.forall_bool.mpr ⟨here, there⟩
    · exact Bool.forall_bool.mpr ⟨there, here⟩
  · cases write
    · exact different
    · exact different.symm

/-- A redirection leaves the table tidy exactly when the stream was not redirected before. -/
theorem tidy_redirect (invariant : StreamsSaved base s) {write : Bool} {n : Nat}
    (redirected : Redirected s s' write n) :
    Tidy base s' ↔ Tidy base s ∧ saved write s.inout = some (stream write) := by
  obtain ⟨i, source, place, copy⟩ := invariant.copies write
  have held : get s.os.fds (some i) ≠ none := by
    rw [copy]
    exact invariant.std _ (stream_lt write)
  have savedNow : ∀ {m}, (∃ write, saved write s'.inout = some m) ↔
      m = n ∨ saved (!write) s.inout = some m := by
    intro m
    have same : saved write s'.inout = some m ↔ m = n := by
      rw [redirected.saved, Option.some.injEq, eq_comm]
    constructor
    · rintro ⟨which, found⟩
      by_cases this : which = write
      · exact .inl (same.mp (this ▸ found))
      · rw [Bool.eq_not.mpr this, redirected.same] at found
        exact .inr found
    · rintro (rfl | found)
      · exact ⟨write, redirected.saved⟩
      · exact ⟨!write, redirected.same.trans found⟩
  have before : ∀ m, get base (some m) = none → get s.os.fds (some m) ≠ none →
      m ≠ n ∧ get s'.os.fds (some m) ≠ none := by
    intro m extra isOpen
    have new : m ≠ n := by
      rintro rfl
      exact isOpen redirected.unused
    refine ⟨new, ?_⟩
    rw [redirected.others m ?_ new]
    · exact isOpen
    · rintro rfl
      exact invariant.std _ (stream_lt write) extra
  constructor
  · intro tidy
    constructor
    · intro m extra isOpen
      obtain ⟨new, isOpenNow⟩ := before m extra isOpen
      exact ⟨!write, (savedNow.mp (tidy m extra isOpenNow)).resolve_left new⟩
    · rcases place with rfl | extra
      · exact source
      · obtain ⟨new, isOpenNow⟩ := before i extra held
        have both := (savedNow.mp (tidy i extra isOpenNow)).resolve_left new
        exact absurd (both.trans source.symm) (invariant.apart_not write)
  · rintro ⟨tidy, first⟩ m extra isOpenNow
    by_cases new : m = n
    · exact savedNow.mpr (.inl new)
    · have target : m ≠ stream write := by
        rintro rfl
        exact invariant.std _ (stream_lt write) extra
      rw [redirected.others m target new] at isOpenNow
      obtain ⟨which, found⟩ := tidy m extra isOpenNow
      refine savedNow.mpr (.inr ?_)
      by_cases this : which = write
      · rw [this, first] at found
        exact absurd (Option.some.inj found).symm target
      · rwa [Bool.eq_not.mpr this] at found

theorem of_same (invariant : StreamsSaved base s) (fds : s'.os.fds = s.os.fds)
    (inout : s'.inout = s.inout) : StreamsSaved base s' := by
  obtain ⟨std, kept, copies, apart⟩ := invariant
  refine ⟨std, ?_, ?_, ?_⟩
  · rwa [fds]
  · rwa [fds, inout]
  · rwa [inout]

end StreamsSaved

theorem tidy_of_same {base : FdTable} {s s' : State W} (fds : s'.os.fds = s.os.fds)
    (inout : s'.inout = s.inout) : Tidy base s' ↔ Tidy base s := by
  unfold Tidy
  rw [fds, inout]

/-! ## Restoring the streams -/

/-- The part of `restore_std` for one stream. -/
def State.restoreStream (s : State W) (write : Bool) : State W :=
  if write then s.restoreStdout else s.restoreStdin

theorem restoreStream_spec {s : State W} {write : Bool} {i : Nat}
    (source : saved write s.inout = some i) (held : get s.os.fds (some i) ≠ none)
    (isOpen : get s.os.fds (some (stream write)) ≠ none) :
    saved write (s.restoreStream write).inout = some (stream write) ∧
      saved (!write) (s.restoreStream write).inout = saved (!write) s.inout ∧
      ∀ m, get (s.restoreStream write).os.fds (some m) =
        if i ≠ stream write ∧ m = i then none
        else if m = stream write then get s.os.fds (some i) else get s.os.fds (some m) := by
  have unchanged : i = stream write → s.restoreStream write = s := by
    intro same
    rw [same] at source
    cases write
    · exact if_neg (not_not.mpr source)
    · exact if_neg (not_not.mpr source)
  have changed : i ≠ stream write →
      (s.restoreStream write).os = (s.os.dup2 (some i) (stream write)).close (some i) ∧
        saved write (s.restoreStream write).inout = some (stream write) ∧
        saved (!write) (s.restoreStream write).inout = saved (!write) s.inout := by
    intro different
    have redirected : saved write s.inout ≠ some (stream write) := by
      rw [source]
      exact fun same => different (Option.some.inj same)
    cases write
    · have restored : s.restoreStream false = _ := if_pos redirected
      have first : s.inout.1 = some i := source
      rw [restored, first]
      exact ⟨rfl, rfl, rfl⟩
    · have restored : s.restoreStream true = _ := if_pos redirected
      have first : s.inout.2 = some i := source
      rw [restored, first]
      exact ⟨rfl, rfl, rfl⟩
  by_cases same : i = stream write
  · rw [unchanged same]
    refine ⟨same ▸ source, rfl, fun m => ?_⟩
    rw [if_neg fun both => both.1 same, same]
    split
    · next target => rw [target]
    · rfl
  · obtain ⟨os, here, there⟩ := changed same
    refine ⟨here, there, fun m => ?_⟩
    rw [os]
    change get (FdTable.close (FdTable.dup2 s.os.fds (some i) (stream write)) (some i)) (some m) = _
    rw [FdTable.get_close, FdTable.get_dup2 held (FdTable.lt_of_get isOpen)]
    by_cases target : m = i
    · rw [if_pos target, if_pos ⟨same, target⟩]
    · have elsewhere : ¬ (i ≠ stream write ∧ m = i) := fun both => target both.2
      rw [if_neg target, if_neg elsewhere]

namespace StreamsSaved

variable {base : FdTable} {s : State W}

/-- Restoring one stream keeps the invariant, and closes nothing but the saved descriptor. -/
theorem restoreStream (invariant : StreamsSaved base s) (write : Bool) :
    StreamsSaved base (s.restoreStream write) ∧
      (Tidy base (s.restoreStream write) ↔ Tidy base s) := by
  obtain ⟨i, source, place, copy⟩ := invariant.copies write
  obtain ⟨j, sourceOther, placeOther, copyOther⟩ := invariant.copies (!write)
  have held : get s.os.fds (some i) ≠ none := by
    rw [copy]
    exact invariant.std _ (stream_lt write)
  obtain ⟨here, there, table⟩ := restoreStream_spec source held (invariant.stream_open write)
  generalize s.restoreStream write = s' at here there table
  have different : j ≠ i := by
    rintro rfl
    exact invariant.apart_not write (sourceOther.trans source.symm)
  have notStream : j ≠ stream write := by
    rcases placeOther with rfl | fresh
    · exact stream_not_ne write
    · rintro rfl
      exact invariant.std _ (stream_lt write) fresh
  have extra_ne : ∀ {m}, get base (some m) = none → m ≠ stream write := by
    rintro m extra rfl
    exact invariant.std _ (stream_lt write) extra
  have others : ∀ m, m ≠ i → m ≠ stream write → get s'.os.fds (some m) = get s.os.fds (some m) := by
    intro m notI notTarget
    rw [table, if_neg fun both => notI both.2, if_neg notTarget]
  have target : get s'.os.fds (some (stream write)) = get base (some (stream write)) := by
    rw [table, if_neg fun both => both.1 both.2.symm, if_pos rfl, copy]
  constructor
  · have copyHere : ∃ i, saved write s'.inout = some i ∧
        (i = stream write ∨ get base (some i) = none) ∧
        get s'.os.fds (some i) = get base (some (stream write)) :=
      ⟨stream write, here, .inl rfl, target⟩
    have copyThere : ∃ i, saved (!write) s'.inout = some i ∧
        (i = stream (!write) ∨ get base (some i) = none) ∧
        get s'.os.fds (some i) = get base (some (stream (!write))) := by
      refine ⟨j, there.trans sourceOther, placeOther, ?_⟩
      rw [others j different notStream, copyOther]
    have apart : saved (!write) s'.inout ≠ saved write s'.inout := by
      rw [there, sourceOther, here]
      exact fun same => notStream (Option.some.inj same)
    refine ⟨invariant.std, fun m isOpen => ?_, ?_, ?_⟩
    · by_cases same : m = stream write
      · rw [same, target]
        exact invariant.std _ (stream_lt write)
      · have notI : m ≠ i := by
          rintro rfl
          rcases place with again | fresh
          · exact same again
          · exact isOpen fresh
        rw [others m notI same]
        exact invariant.kept m isOpen
    · cases write
      · exact Bool.forall_bool.mpr ⟨copyHere, copyThere⟩
      · exact Bool.forall_bool.mpr ⟨copyThere, copyHere⟩
    · cases write
      · exact apart
      · exact apart.symm
  · constructor
    · intro tidy m extra isOpen
      by_cases same : m = i
      · exact ⟨write, same ▸ source⟩
      · rw [← others m same (extra_ne extra)] at isOpen
        obtain ⟨which, found⟩ := tidy m extra isOpen
        by_cases this : which = write
        · rw [this, here] at found
          exact absurd (Option.some.inj found).symm (extra_ne extra)
        · rw [Bool.eq_not.mpr this, there] at found
          exact ⟨!write, found⟩
    · intro tidy m extra isOpen
      have notI : m ≠ i := by
        rintro rfl
        rw [table, if_pos ⟨extra_ne extra, rfl⟩] at isOpen
        exact isOpen rfl
      rw [others m notI (extra_ne extra)] at isOpen
      obtain ⟨which, found⟩ := tidy m extra isOpen
      by_cases this : which = write
      · rw [this, source] at found
        exact absurd (Option.some.inj found).symm notI
      · rw [Bool.eq_not.mpr this] at found
        exact ⟨!write, there.trans found⟩

theorem restoreStd (invariant : StreamsSaved base s) :
    StreamsSaved base s.restoreStd ∧ (Tidy base s.restoreStd ↔ Tidy base s) := by
  obtain ⟨first, tidy⟩ := invariant.restoreStream true
  obtain ⟨second, tidy'⟩ := first.restoreStream false
  exact ⟨second, tidy'.trans tidy⟩

end StreamsSaved

/-! ## Runs of tokens -/

theorem restoreStd_same {s t : State W} (fds : t.os.fds = s.os.fds) (inout : t.inout = s.inout) :
    t.restoreStd.os.fds = s.restoreStd.os.fds ∧ t.restoreStd.inout = s.restoreStd.inout := by
  have out : t.restoreStdout.os.fds = s.restoreStdout.os.fds ∧
      t.restoreStdout.inout = s.restoreStdout.inout := by
    unfold State.restoreStdout
    rw [inout]
    split
    · refine ⟨?_, rfl⟩
      change FdTable.close (FdTable.dup2 t.os.fds _ _) _ = FdTable.close (FdTable.dup2 s.os.fds _ _) _
      rw [fds]
    · exact ⟨fds, inout⟩
  unfold State.restoreStd
  generalize t.restoreStdout = t' at out ⊢
  generalize s.restoreStdout = s' at out ⊢
  unfold State.restoreStdin
  rw [out.2]
  split
  · refine ⟨?_, rfl⟩
    change FdTable.close (FdTable.dup2 t'.os.fds _ _) _ =
      FdTable.close (FdTable.dup2 s'.os.fds _ _) _
    rw [out.1]
  · exact out

/-- To the descriptors of the shell, the end of a command is `restore_std`. -/
theorem finish_fds {s s' : State W} {args : List Text} (ended : finish env s args = .ok s') :
    s'.os.fds = s.restoreStd.os.fds ∧ s'.inout = s.restoreStd.inout := by
  by_cases skipped : args = [] ∨ s.conditionalRun = false
  · rw [finish_skipped env skipped] at ended
    cases ended
    exact ⟨rfl, rfl⟩
  · cases found : findBuiltin args with
    | some b =>
        rw [finish_builtin env skipped found] at ended
        cases b with
        | exit => cases ended
        | cd | status =>
            cases ended
            exact restoreStd_same rfl rfl
    | none =>
        rw [finish_external env skipped found, forkCommand] at ended
        split at ended
        · cases ended
        · cases ended
          have restored : (s.setOs fun os =>
              os.record (.launch args (childFds s none))).restoreStd.os.fds = s.restoreStd.os.fds ∧
              (s.setOs fun os =>
                os.record (.launch args (childFds s none))).restoreStd.inout = s.restoreStd.inout :=
            restoreStd_same rfl rfl
          exact restored

/-- Every token is executed in a state that meets a condition. -/
def Along (condition : State W → Token → Bool) : State W → List Text → List Token → Prop
  | _, _, [] => True
  | s, args, token :: rest => condition s token = true ∧
      Meets (tokenStep env (s, args) token) (fun _ => True) fun next =>
        Along condition next.1 next.2 rest

instance decidableAlong (condition : State W → Token → Bool) :
    ∀ (s : State W) (args : List Text) (toks : List Token),
      Decidable (Along env condition s args toks)
  | _, _, [] => inferInstanceAs (Decidable True)
  | s, args, token :: rest =>
      have : DecidablePred fun next : State W × List Text =>
        Along env condition next.1 next.2 rest := fun next =>
          decidableAlong condition next.1 next.2 rest
      inferInstanceAs (Decidable (_ ∧ Meets (tokenStep env (s, args) token) (fun _ => True) fun next =>
        Along env condition next.1 next.2 rest))

/-- The `dup` of a redirection succeeds. -/
def dupSucceeds (s : State W) : Token → Bool
  | .redirect write file =>
      match s.os.openFile env file write with
      | (some _, os) => (os.dup (saved write s.inout)).1.isSome
      | (none, _) => true
  | _ => true

/-- A stream whose file is opened has not been redirected yet. -/
def firstRedirect (s : State W) : Token → Bool
  | .redirect write file =>
      match s.os.openFile env file write with
      | (some _, _) => saved write s.inout = some (stream write)
      | (none, _) => true
  | _ => true

/-- One token: the invariant is kept, and the table stays tidy exactly when the token does not
redirect a stream for the second time. -/
theorem tokenStep_streams {base : FdTable} {s : State W} {args : List Text} {token : Token}
    {next : State W × List Text} (invariant : StreamsSaved base s) (dups : dupSucceeds env s token = true)
    (stepped : tokenStep env (s, args) token = .ok next) :
    StreamsSaved base next.1 ∧ (Tidy base next.1 ↔ Tidy base s ∧ firstRedirect env s token = true) := by
  have unchanged : firstRedirect env s token = true → next.1.os.fds = s.os.fds →
      next.1.inout = s.inout →
        StreamsSaved base next.1 ∧ (Tidy base next.1 ↔ Tidy base s ∧ firstRedirect env s token = true) := by
    intro first fds inout
    refine ⟨invariant.of_same fds inout, (tidy_of_same fds inout).trans ?_⟩
    exact (and_iff_left first).symm
  have ended : ∀ {change : State W → State W}, token.operator = some change →
      firstRedirect env s token = true →
        StreamsSaved base next.1 ∧ (Tidy base next.1 ↔ Tidy base s ∧ firstRedirect env s token = true) := by
    intro change operator first
    rw [tokenStep_operator env operator] at stepped
    cases finished : finish env s args with
    | error stop =>
        rw [finished] at stepped
        cases stepped
    | ok s' =>
        rw [finished] at stepped
        cases stepped
        obtain ⟨os, -, same⟩ := Token.operator_same operator s'
        obtain ⟨fds, inout⟩ := finish_fds env finished
        obtain ⟨kept, tidy⟩ := invariant.restoreStd
        have fds' := (congrArg Os.fds os).trans fds
        have inout' := same.trans inout
        refine ⟨kept.of_same fds' inout', ?_⟩
        rw [and_iff_left first, ← tidy]
        exact tidy_of_same fds' inout'
  cases token with
  | word text =>
      rw [tokenStep] at stepped
      split at stepped
      · cases stepped
        exact unchanged rfl rfl rfl
      · cases stepped
  | redirect write file =>
      cases stepped
      simp only [dupSucceeds] at dups
      simp only [redirectToken, firstRedirect]
      cases opened : s.os.openFile env file write with
      | mk fd os =>
          cases fd with
          | none =>
              have fds := openFile_none env opened
              have tidy : Tidy base { s with os := os } ↔ Tidy base s := tidy_of_same fds rfl
              exact ⟨invariant.of_same fds rfl, tidy.trans (and_iff_left rfl).symm⟩
          | some fd =>
              rw [opened] at dups
              obtain ⟨i, source, -, copy⟩ := invariant.copies write
              obtain ⟨n, copied⟩ := Option.isSome_iff_exists.mp dups
              have redirected := redirectTo_spec env opened (invariant.stream_open write) source
                (by rw [copy]; exact invariant.std _ (stream_lt write)) copied
              refine ⟨invariant.redirect redirected, (invariant.tidy_redirect redirected).trans ?_⟩
              exact and_congr_right fun _ => decide_eq_true_iff.symm
  | noFile => cases stepped
  | semi | andAnd | orOr => exact ended rfl rfl
  | pipe | amp =>
      cases stepped
      exact unchanged rfl rfl rfl

theorem runTokens_streams {base : FdTable} {s s' : State W} {args : List Text} {toks : List Token}
    (invariant : StreamsSaved base s) (dups : Along env (dupSucceeds env) s args toks)
    (ran : runTokens env s args toks = .ok s') :
    StreamsSaved base s' ∧
      (Tidy base s' ↔ Tidy base s ∧ Along env (firstRedirect env) s args toks) := by
  induction toks generalizing s args with
  | nil =>
      obtain ⟨fds, inout⟩ := finish_fds env ran
      obtain ⟨kept, tidy⟩ := invariant.restoreStd
      refine ⟨kept.of_same fds inout, ?_⟩
      rw [Along, and_true, ← tidy]
      exact tidy_of_same fds inout
  | cons token toks ih =>
      obtain ⟨here, later⟩ := dups
      obtain ⟨next, stepped, rest⟩ := of_bind_ok ran
      obtain ⟨kept, tidy⟩ := tokenStep_streams env invariant here stepped
      obtain ⟨kept', tidy'⟩ := ih kept (later.of_ok stepped) rest
      refine ⟨kept', ?_⟩
      rw [tidy', tidy, Along, stepped, and_assoc, meets_ok]

end Tokens

/-! ## Lines -/

section Lines

variable (env : ShellEnv W)

/-- The tokens that the shell itself executes for the pieces of a line meet a condition. -/
def PiecesAlong (condition : State W → Token → Bool) (s : State W) : List Text → Prop
  | [] => True
  | [piece] => Along env.toEnv condition s.start [] (tokens piece)
  | piece :: next :: rest =>
      env.canFork s.os.world = true → PiecesAlong condition (s.started env piece) (next :: rest)

/-- The tokens that the shell itself executes for lines meet a condition. -/
def LinesAlong (condition : State W → Token → Bool) (s : State W) : List Text → Prop
  | [] => True
  | line :: lines => PiecesAlong env condition s (pieces line) ∧
      Meets (process env s line).result (fun _ => True) fun s' => LinesAlong condition s' lines

instance decidablePiecesAlong (condition : State W → Token → Bool) :
    ∀ (s : State W) (list : List Text), Decidable (PiecesAlong env condition s list)
  | _, [] => inferInstanceAs (Decidable True)
  | s, [piece] => inferInstanceAs (Decidable (Along env.toEnv condition s.start [] (tokens piece)))
  | s, piece :: next :: rest =>
      have := decidablePiecesAlong condition (s.started env piece) (next :: rest)
      inferInstanceAs (Decidable (_ → PiecesAlong env condition (s.started env piece) (next :: rest)))

instance decidableLinesAlong (condition : State W → Token → Bool) :
    ∀ (s : State W) (lines : List Text), Decidable (LinesAlong env condition s lines)
  | _, [] => inferInstanceAs (Decidable True)
  | s, line :: lines =>
      have : DecidablePred fun s' : State W => LinesAlong env condition s' lines := fun s' =>
        decidableLinesAlong condition s' lines
      inferInstanceAs (Decidable (_ ∧ Meets (process env s line).result (fun _ => True) fun s' =>
        LinesAlong env condition s' lines))

/-- The shell has the streams of `base`, and `inout` is `{0, 1}`. -/
structure Restored (base : FdTable) (s : State W) : Prop where
  stdin : get s.os.fds (some stdinFileno) = get base (some stdinFileno)
  stdout : get s.os.fds (some stdoutFileno) = get base (some stdoutFileno)
  inout : s.inout = (some stdinFileno, some stdoutFileno)

/-- The same descriptors are open. -/
def SameOpen (s s' : State W) : Prop :=
  ∀ n, get s'.os.fds (some n) ≠ none ↔ get s.os.fds (some n) ≠ none

theorem StreamsSaved.restored {base : FdTable} {s : State W} (invariant : StreamsSaved base s)
    (std : s.Std) : Restored base s := by
  have streams : ∀ write, saved write s.inout = some (stream write) →
      get s.os.fds (some (stream write)) = get base (some (stream write)) := by
    intro write same
    obtain ⟨i, source, -, copy⟩ := invariant.copies write
    rw [same] at source
    cases source
    exact copy
  have inout : s.inout = (some stdinFileno, some stdoutFileno) := std
  exact ⟨streams false (by rw [inout]; rfl), streams true (by rw [inout]; rfl), inout⟩

/-- Once the streams are restored, a tidy table has the descriptors of `base`. -/
theorem StreamsSaved.tidy_iff {s s' : State W} (invariant : StreamsSaved s.os.fds s')
    (std : s'.Std) : Tidy s.os.fds s' ↔ SameOpen s s' := by
  have inout : s'.inout = (some stdinFileno, some stdoutFileno) := std
  constructor
  · intro tidy n
    refine ⟨fun isOpen extra => ?_, invariant.kept n⟩
    obtain ⟨write, found⟩ := tidy n extra isOpen
    rw [inout] at found
    have target : stream write = n := by
      cases write
      · exact Option.some.inj found
      · exact Option.some.inj found
    exact invariant.std _ (target ▸ stream_lt write) extra
  · intro same n extra isOpen
    exact absurd extra ((same n).mp isOpen)

theorem StreamsSaved.start {s : State W} {base : FdTable}
    (std : ∀ n, n < 3 → get base (some n) ≠ none)
    (kept : ∀ n, get base (some n) ≠ none → get s.os.fds (some n) ≠ none)
    (stdin : get s.os.fds (some stdinFileno) = get base (some stdinFileno))
    (stdout : get s.os.fds (some stdoutFileno) = get base (some stdoutFileno)) :
    StreamsSaved base s.start where
  std := std
  kept := kept
  copies := Bool.forall_bool.mpr ⟨⟨stdinFileno, rfl, .inl rfl, stdin⟩, stdoutFileno, rfl, .inl rfl, stdout⟩
  apart := by
    change some stdoutFileno ≠ some stdinFileno
    decide

/-- The pieces of a line: children do not touch the descriptors of the shell. -/
theorem runPieces_streams {base : FdTable} {s s' : State W} {jobs : List (Job W)}
    {list : List Text} (nonempty : list ≠ []) (invariant : StreamsSaved base s.start)
    (dups : PiecesAlong env (dupSucceeds env.toEnv) s list)
    (ran : (runPieces env s jobs list).result = .ok s') :
    StreamsSaved base s' ∧ s'.Std ∧ (Tidy base s' ↔ Tidy base s.start ∧
      PiecesAlong env (firstRedirect env.toEnv) s list) := by
  induction list generalizing s jobs with
  | nil => exact absurd rfl nonempty
  | cons piece list ih =>
      cases list with
      | nil =>
          change processCommand env.toEnv s piece = .ok s' at ran
          rw [processCommand_eq] at ran
          obtain ⟨kept, tidy⟩ := runTokens_streams env.toEnv invariant dups ran
          exact ⟨kept, runTokens_std env.toEnv ran, tidy⟩
      | cons next rest =>
          rw [runPieces] at ran
          split at ran
          · cases ran
          · next forks =>
              have can : env.canFork s.os.world = true := by simpa using forks
              have started : StreamsSaved base (s.started env piece).start :=
                invariant.of_same rfl rfl
              obtain ⟨kept, std, tidy⟩ := ih (List.cons_ne_nil next rest) started (dups can) ran
              refine ⟨kept, std, tidy.trans (and_congr (tidy_of_same rfl rfl) ?_)⟩
              exact ⟨fun first _ => first, fun first => first can⟩

/-- The invariant between two lines. -/
structure StreamsKept (base : FdTable) (s : State W) : Prop where
  kept : ∀ n, get base (some n) ≠ none → get s.os.fds (some n) ≠ none
  stdin : get s.os.fds (some stdinFileno) = get base (some stdinFileno)
  stdout : get s.os.fds (some stdoutFileno) = get base (some stdoutFileno)

theorem streamsKept_refl (s : State W) : StreamsKept s.os.fds s := ⟨fun _ isOpen => isOpen, rfl, rfl⟩

/-- One line. -/
theorem process_streams {base : FdTable} {s s' : State W} {line : Text} (clean : nul ∉ line)
    (std : ∀ n, n < 3 → get base (some n) ≠ none) (before : StreamsKept base s)
    (dups : PiecesAlong env (dupSucceeds env.toEnv) s (pieces line))
    (ran : (process env s line).result = .ok s') :
    StreamsSaved base s' ∧ s'.Std ∧ (Tidy base s' ↔ Tidy base s.start ∧
      PiecesAlong env (firstRedirect env.toEnv) s (pieces line)) := by
  rw [process_eq env s clean] at ran
  exact runPieces_streams env (pieces_ne_nil line)
    (.start std before.kept before.stdin before.stdout) dups ran

theorem StreamsSaved.between {base : FdTable} {s : State W} (invariant : StreamsSaved base s)
    (std : s.Std) : StreamsKept base s :=
  have restored := invariant.restored std
  ⟨invariant.kept, restored.stdin, restored.stdout⟩

theorem processLines_cons {s s' : State W} {line : Text} {lines : List Text}
    (ran : (processLines env s (line :: lines)).result = .ok s') :
    ∃ s₁, (process env s line).result = .ok s₁ ∧ (processLines env s₁ lines).result = .ok s' := by
  rw [processLines] at ran
  cases outcome : process env s line with
  | mk jobs result =>
      rw [outcome] at ran
      cases result with
      | error stop => cases ran
      | ok s₁ => exact ⟨s₁, rfl, ran⟩

theorem processLines_streams {base : FdTable} (std : ∀ n, n < 3 → get base (some n) ≠ none)
    {lines : List Text} (clean : ∀ line ∈ lines, nul ∉ line) (nonempty : lines ≠ []) {s s' : State W}
    (before : StreamsKept base s) (dups : LinesAlong env (dupSucceeds env.toEnv) s lines)
    (ran : (processLines env s lines).result = .ok s') : Restored base s' := by
  induction lines generalizing s with
  | nil => exact absurd rfl nonempty
  | cons line lines ih =>
      obtain ⟨s₁, first, rest⟩ := processLines_cons env ran
      obtain ⟨here, later⟩ := dups
      obtain ⟨kept, streams, -⟩ :=
        process_streams env (clean line List.mem_cons_self) std before here first
      cases lines with
      | nil =>
          cases rest
          exact kept.restored streams
      | cons next lines =>
          exact ih (fun line member => clean line (List.mem_cons_of_mem _ member))
            (List.cons_ne_nil next lines) (kept.between streams) (later.of_ok first) rest

/-- **The standard streams are restored.** After any lines, with any redirections of which any
may fail, the shell has the streams it started with, and `inout` is `{0, 1}`. -/
theorem streams_restored (s : State W) (std : ∀ n, n < 3 → get s.os.fds (some n) ≠ none)
    (lines : List Text) (nonempty : lines ≠ []) (clean : ∀ line ∈ lines, nul ∉ line)
    (dups : LinesAlong env (dupSucceeds env.toEnv) s lines) (s' : State W)
    (ran : (processLines env s lines).result = .ok s') : Restored s.os.fds s' :=
  processLines_streams env std clean nonempty (streamsKept_refl s) dups ran

theorem streams_restored_twice :
    let lines := ["cat > f > g < h &\n".toList, "wc < f > k < g ; cd x && ls > f\n".toList]
    ∃ s', (processLines sampleShell sampleState lines).result = .ok s' ∧
      LinesAlong sampleShell (dupSucceeds sampleShell.toEnv) sampleState lines ∧
      Restored sampleState.os.fds s' := by
  have dups : LinesAlong sampleShell (dupSucceeds sampleShell.toEnv) sampleState
      ["cat > f > g < h &\n".toList, "wc < f > k < g ; cd x && ls > f\n".toList] := by
    decide
  refine ⟨_, rfl, dups, ?_⟩
  exact streams_restored sampleShell sampleState (by decide) _ (by decide) (by decide) dups _
    rfl

/-- The descriptors open after each line are those open before it. -/
def NoLeak (s : State W) : List Text → Prop
  | [] => True
  | line :: lines =>
      Meets (process env s line).result (fun _ => True) fun s' => SameOpen s s' ∧ NoLeak s' lines

/-- **Descriptors.** The lines leave no descriptor open exactly when no command redirects a stream
that it has redirected before. -/
theorem noLeak_iff (s : State W) (std : ∀ n, n < 3 → get s.os.fds (some n) ≠ none)
    (lines : List Text) (clean : ∀ line ∈ lines, nul ∉ line)
    (dups : LinesAlong env (dupSucceeds env.toEnv) s lines) (s' : State W)
    (ran : (processLines env s lines).result = .ok s') :
    NoLeak env s lines ↔ LinesAlong env (firstRedirect env.toEnv) s lines := by
  induction lines generalizing s with
  | nil => exact Iff.rfl
  | cons line lines ih =>
      obtain ⟨s₁, first, rest⟩ := processLines_cons env ran
      obtain ⟨here, later⟩ := dups
      obtain ⟨kept, streams, tidy⟩ := process_streams env (clean line List.mem_cons_self) std
        (streamsKept_refl s) here first
      have start : Tidy s.os.fds s.start := fun n extra isOpen => absurd extra isOpen
      have std' : ∀ n, n < 3 → get s₁.os.fds (some n) ≠ none := fun n small =>
        kept.kept n (std n small)
      have next := ih s₁ std' (fun line member => clean line (List.mem_cons_of_mem _ member))
        (later.of_ok first) rest
      rw [NoLeak, LinesAlong, first, meets_ok, meets_ok, next, ← kept.tidy_iff streams, tidy,
        and_iff_right start]

theorem noLeak_once :
    let lines := ["cat < f > f\n".toList, "wc < f > f ; ls > g\n".toList]
    LinesAlong sampleShell (firstRedirect sampleShell.toEnv) sampleState lines ∧
      NoLeak sampleShell sampleState lines := by
  have first : LinesAlong sampleShell (firstRedirect sampleShell.toEnv) sampleState
      ["cat < f > f\n".toList, "wc < f > f ; ls > g\n".toList] := by decide
  refine ⟨first, (noLeak_iff sampleShell sampleState (by decide) _ (by decide) ?_ _
    rfl).mpr first⟩
  decide

/-- After `cat > f > g` the descriptor 4 stays open. -/
theorem second_redirect_leaks :
    ¬ ∀ (lines : List Text) (s' : State (List Text)),
      LinesAlong sampleShell (dupSucceeds sampleShell.toEnv) sampleState lines →
      (processLines sampleShell sampleState lines).result = .ok s' →
        NoLeak sampleShell sampleState lines := by
  intro law
  have dups : LinesAlong sampleShell (dupSucceeds sampleShell.toEnv) sampleState
      ["cat > f > g\n".toList] := by decide
  obtain ⟨same, -⟩ := law ["cat > f > g\n".toList] _ dups rfl
  have closed : get sampleState.os.fds (some 4) = none := rfl
  refine (same 4).mp ?_ closed
  decide

end Lines

end OsTasks.Shell
