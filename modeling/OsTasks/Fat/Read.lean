import OsTasks.Lib.Loop
import OsTasks.Fat.Init

/-!
# Reading a file

A translation of `get_next_cluster_number` and `vfat_fuse_read` of `vfat.c`. The loop of the
latter walks along the cluster chain of the file; `plan` is what it does in one cluster: which
bytes it reads, and what is left to read afterwards. `plan_cases` says this over the natural
numbers, where nothing wraps around.

`vfat_fuse_read` does not look at the path. It always reads the file whose directory entry is at
`direntryOffset`.
-/

set_option autoImplicit false

namespace OsTasks.Fat

open OsTasks.Lib

/-! ## The cluster chain -/

/-- `IS_EOC`. -/
def isEoc (x : UInt32) : Bool := vfatEoc ≤ x

/-- A number that stands for the end of a chain. -/
def EndOfChain (n : UInt32) : Prop := n = 0 ∨ isEoc n = true

/-- Set the two cluster numbers. -/
def Vfat.setClusters (f : Vfat) (current next : UInt32) : Vfat :=
  { f with currentClusterNumber := current, nextClusterNumber := next }

/-- The offset of an entry of the FAT. The sum is computed in `size_t` and stored in an `int`. -/
def Vfat.clusterOffset (f : Vfat) (n : UInt32) : Int :=
  int32 (f.bootSector.rsvdSecCnt.toNat * f.bootSector.bytsPerSec.toNat + n.toNat * 4 : Nat)

/-- `get_next_cluster_number`. The bytes of the next number that a short `pread` does not reach
keep their values. -/
def getNextClusterNumber (dev : Device) (f : Vfat) : Int × Vfat :=
  let current := f.nextClusterNumber
  if 0 < current ∧ !isEoc current then
    let entry := fill (bytes32 f.nextClusterNumber) (dev.pread 4 (f.clusterOffset current))
    (0, f.setClusters current (load32 entry 0 &&& 0x0FFFFFFF))
  else (-1, f.setClusters 0xFFFFFFFF 0xFFFFFFFF)

/-! ## One cluster -/

/-- What the loop does in one cluster. `chunk` is `to_read` with `current_offset`, unless the
cluster is passed over, and the other fields are the variables of the loop afterwards. -/
structure Plan where
  chunk : Option (Int × Int)
  size : Nat
  offset : Int
  lastRound : Bool

/-- The body of the loop up to the `pread`. Sums and differences with `size` are computed in
`size_t`, the other ones in `off_t`. -/
def plan (bytesPerSector : Int) (size : Nat) (offset : Int) : Plan :=
  if sizeT (size + offset) ≤ sizeT bytesPerSector then
    { chunk := some (int32 (sizeT (size - offset)), int32 offset)
      size := size
      offset := offset
      lastRound := sizeT (size + offset) < sizeT bytesPerSector }
  else if bytesPerSector ≤ offset then
    { chunk := none, size := size, offset := offset - bytesPerSector, lastRound := false }
  else if sizeT bytesPerSector < size then
    { chunk := some (int32 (bytesPerSector - offset), int32 offset)
      size := sizeT (size - bytesPerSector)
      offset := 0
      lastRound := false }
  else
    { chunk := some (int32 (bytesPerSector - offset), int32 offset)
      size := sizeT (size - int32 (bytesPerSector - offset))
      offset := 0
      lastRound := false }

/-- The plan of a cluster of `B` bytes, where an `offset` less than `size` is left. -/
theorem plan_cases {B size offset : Nat} (small : B < 2 ^ 31) (fits : size < 2 ^ 32)
    (less : offset < size) :
    (size + offset ≤ B ∧
      plan B size offset =
        ⟨some ((size - offset : Nat), offset), size, offset, decide (size + offset < B)⟩) ∨
    (B < size + offset ∧ B ≤ offset ∧
      plan B size offset = ⟨none, size, (offset - B : Nat), false⟩) ∨
    (B < size + offset ∧ offset < B ∧ B < size ∧
      plan B size offset = ⟨some ((B - offset : Nat), offset), size - B, 0, false⟩) ∨
    (B < size + offset ∧ offset < B ∧ size ≤ B ∧
      plan B size offset =
        ⟨some ((B - offset : Nat), offset), size + offset - B, 0, false⟩) := by
  have sum : sizeT (size + offset) = size + offset := by
    rw [← Int.natCast_add]
    exact sizeT_of_fits (by omega)
  have cluster : sizeT B = B := sizeT_of_fits (by omega)
  rw [plan]
  rw [sum, cluster]
  by_cases first : size + offset ≤ B
  · left
    refine ⟨first, ?_⟩
    have rest : sizeT (size - offset) = size - offset := by
      rw [← Int.ofNat_sub (Nat.le_of_lt less)]
      exact sizeT_of_fits (by omega)
    rw [if_pos first, rest, int32_of_fits (by omega) (by omega), int32_of_fits (by omega) (by omega)]
  · right
    rw [if_neg first]
    by_cases skip : B ≤ offset
    · left
      refine ⟨by omega, skip, ?_⟩
      rw [if_pos (by omega), Int.ofNat_sub skip]
    · right
      have chunk : (B : Int) - offset = (B - offset : Nat) := (Int.ofNat_sub (by omega)).symm
      have toRead : int32 (B - offset : Nat) = (B - offset : Nat) :=
        int32_of_fits (by omega) (by omega)
      rw [if_neg (by omega), chunk, toRead, int32_of_fits (by omega) (by omega)]
      by_cases long : B < size
      · left
        refine ⟨by omega, by omega, long, ?_⟩
        have rest : sizeT (size - B) = size - B := by
          rw [← Int.ofNat_sub (Nat.le_of_lt long)]
          exact sizeT_of_fits (by omega)
        rw [if_pos long, rest]
      · right
        refine ⟨by omega, by omega, by omega, ?_⟩
        have rest : sizeT (size - (B - offset : Nat)) = size + offset - B := by
          rw [← Int.ofNat_sub (by omega), sizeT_of_fits (by omega)]
          omega
        rw [if_neg long, rest]

/-! ## The loop -/

/-- The buffer of the caller is left. -/
inductive ReadFault where
  | overrun
  deriving DecidableEq, Repr

/-- Store the bytes of a `pread` at the beginning of the buffer. -/
def storeBuf (buf bytes : List UInt8) : Except ReadFault (List UInt8) :=
  if bytes.length ≤ buf.length then .ok (bytes ++ buf.drop bytes.length) else .error .overrun

/-- The variables of the loop of `vfat_fuse_read`. -/
structure Reading where
  f : Vfat
  buf : List UInt8
  size : Nat
  offset : Int
  lastRound : Bool

/-- The variable `bytes_per_sector`, which is the size of a cluster. -/
def Vfat.bytesPerSector (f : Vfat) : Int := f.clusterSize

/-- A `pread` of the loop: `to_read` bytes at `current_offset` in the cluster at `dataStart`. -/
structure Pread where
  toRead : Int
  currentOffset : Int
  dataStart : UInt32
  deriving DecidableEq, Repr

/-- The offset on the device. The sum is computed in `uint32_t`. -/
def Pread.address (call : Pread) : Nat :=
  uint32 (call.dataStart.toNat + call.currentOffset)

/-- The `pread` of one turn of the loop, unless the loop is left or passes over the cluster. -/
def Reading.pread (dev : Device) (r : Reading) : Option Pread :=
  let (status, f) := getNextClusterNumber dev r.f
  if r.lastRound ∨ status = -1 then none
  else
    (plan f.bytesPerSector r.size r.offset).chunk.map fun (toRead, currentOffset) =>
      ⟨toRead, currentOffset, f.dataStart f.currentClusterNumber⟩

/-- One turn of the loop, with its test. Every chunk is stored at the beginning of the buffer. -/
def readTurn (dev : Device) (r : Reading) : Except ReadFault (Reading ⊕ Reading) :=
  if r.lastRound then .ok (.inr r)
  else
    let (status, f) := getNextClusterNumber dev r.f
    if status = -1 then .ok (.inr { r with f := f })
    else
      let next := plan f.bytesPerSector r.size r.offset
      match r.pread dev with
      | none => .ok (.inl ⟨f, r.buf, next.size, next.offset, next.lastRound⟩)
      | some call => do
          let buf ← storeBuf r.buf (dev.pread call.toRead call.address)
          .ok (.inl ⟨f, buf, next.size, next.offset, next.lastRound⟩)

section Turns

variable {dev : Device} {r : Reading}

/-- Storing changes the beginning of the buffer only. -/
theorem storeBuf_drop {buf bytes buf' : List UInt8} {bound : Nat} (short : bytes.length ≤ bound)
    (stored : storeBuf buf bytes = .ok buf') :
    buf'.drop bound = buf.drop bound ∧ buf'.length = buf.length := by
  rw [storeBuf] at stored
  split at stored
  · next room =>
      cases stored
      constructor
      · rw [List.drop_append, List.drop_eq_nil_of_le short, List.nil_append, List.drop_drop]
        congr 1
        omega
      · rw [List.length_append, List.length_drop]
        omega
  · cases stored

/-- When a turn issues a `pread`, and which one. -/
theorem Reading.pread_eq_some {call : Pread} : r.pread dev = some call ↔
    (¬ r.lastRound = true ∧ (getNextClusterNumber dev r.f).1 ≠ -1) ∧
      (plan (getNextClusterNumber dev r.f).2.bytesPerSector r.size r.offset).chunk =
        some (call.toRead, call.currentOffset) ∧
      call.dataStart = (getNextClusterNumber dev r.f).2.dataStart
        (getNextClusterNumber dev r.f).2.currentClusterNumber := by
  rw [Reading.pread]
  dsimp only
  by_cases left : r.lastRound = true ∨ (getNextClusterNumber dev r.f).1 = -1
  · rw [if_pos left]
    exact iff_of_false (fun issued => by cases issued) fun issued => not_or.mpr issued.1 left
  · rw [if_neg left, Option.map_eq_some_iff]
    constructor
    · rintro ⟨⟨toRead, currentOffset⟩, chunk, rfl⟩
      exact ⟨not_or.mp left, chunk, rfl⟩
    · rintro ⟨-, chunk, dataStart⟩
      refine ⟨_, chunk, ?_⟩
      rw [← dataStart]

/-- A turn stores what its `pread` reads, and goes on. -/
theorem readTurn_pread {call : Pread} (issued : r.pread dev = some call) :
    ∃ next : Reading, readTurn dev r =
      (storeBuf r.buf (dev.pread call.toRead call.address)).map
        fun buf => .inl { next with buf := buf } := by
  obtain ⟨⟨notLast, cluster⟩, -⟩ := Reading.pread_eq_some.mp issued
  rcases entered : getNextClusterNumber dev r.f with ⟨status, f⟩
  rw [entered] at cluster
  refine ⟨⟨f, r.buf, (plan f.bytesPerSector r.size r.offset).size,
    (plan f.bytesPerSector r.size r.offset).offset,
    (plan f.bytesPerSector r.size r.offset).lastRound⟩, ?_⟩
  rw [readTurn, if_neg notLast, entered]
  dsimp only
  rw [if_neg cluster, issued]
  dsimp only
  cases storeBuf r.buf (dev.pread call.toRead call.address) with
  | error fault => rfl
  | ok buf => rfl

/-- A turn without a `pread` leaves the buffer as it is. -/
theorem readTurn_no_pread (silent : r.pread dev = none) :
    ∃ next : Reading, next.buf = r.buf ∧
      (readTurn dev r = .ok (.inl next) ∨ readTurn dev r = .ok (.inr next)) := by
  rw [readTurn]
  split
  · exact ⟨r, rfl, .inr rfl⟩
  · dsimp only
    split
    · exact ⟨{ r with f := (getNextClusterNumber dev r.f).2 }, rfl, .inr rfl⟩
    · rw [silent]
      refine ⟨_, ?_, .inl rfl⟩
      rfl

/-- What one more turn of the loop does. -/
theorem readTurn_again {next : Reading} (turn : readTurn dev r = .ok (.inl next)) :
    let f := (getNextClusterNumber dev r.f).2
    let planned := plan f.bytesPerSector r.size r.offset
    next.f = f ∧ next.size = planned.size ∧ next.offset = planned.offset ∧
      next.lastRound = planned.lastRound ∧
      ((r.pread dev = none ∧ next.buf = r.buf) ∨
        ∃ call, r.pread dev = some call ∧
          storeBuf r.buf (dev.pread call.toRead call.address) = .ok next.buf) := by
  dsimp only
  rw [readTurn] at turn
  split at turn
  · cases turn
  · dsimp only at turn
    split at turn
    · cases turn
    · split at turn
      · next none =>
          cases turn
          exact ⟨rfl, rfl, rfl, rfl, .inl ⟨none, rfl⟩⟩
      · next call issued =>
          cases stored : storeBuf r.buf (dev.pread call.toRead call.address) with
          | error fault =>
              rw [stored] at turn
              cases turn
          | ok buf =>
              rw [stored] at turn
              cases turn
              exact ⟨rfl, rfl, rfl, rfl, .inr ⟨call, issued, stored⟩⟩

/-- The turn that leaves the loop stores nothing. -/
theorem readTurn_done {final : Reading} (turn : readTurn dev r = .ok (.inr final)) :
    final.buf = r.buf := by
  cases issued : r.pread dev with
  | none =>
      obtain ⟨next, same, again | done⟩ := readTurn_no_pread issued
      · rw [again] at turn
        cases turn
      · rw [done] at turn
        cases turn
        exact same
  | some call =>
      obtain ⟨next, stores⟩ := readTurn_pread issued
      rw [stores] at turn
      generalize storeBuf r.buf _ = stored at turn
      cases stored <;> cases turn

end Turns

/-- `direntry_offset`: every file is read through the entry at this address. -/
def direntryOffset : Nat := 0x000FDC20

/-- The file system when the loop starts, at the first cluster of the file. -/
def Vfat.loadDirentry (f : Vfat) (dev : Device) : Vfat :=
  let record := fill f.currentDirentry (dev.pread vfatDirentrySize direntryOffset)
  let first := (VfatDirentry.load record).cluster
  { f with currentDirentry := record, nextClusterNumber := first, currentClusterNumber := first }

/-- `vfat_fuse_read`: the value it returns, the buffer and the file system. -/
def vfatFuseRead (dev : Device) (fuel : Nat) (f : Vfat) (buf : List UInt8) (size : Nat)
    (offset : Int) : Option (Except ReadFault (Int × List UInt8 × Vfat)) :=
  if size ≤ sizeT offset then some (.ok (-1, buf, f))
  else
    (loop (readTurn dev) fuel ⟨f.loadDirentry dev, buf, size, offset, false⟩).map fun result =>
      result.map fun r => (int32 size, r.buf, r.f)

end OsTasks.Fat
