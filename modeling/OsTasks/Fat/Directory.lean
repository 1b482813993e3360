import OsTasks.Lib.Loop
import OsTasks.Fat.Geometry

/-!
# Reading the root directory

A translation of `trim_nstr` and `vfat_read_root_directory` of `vfat.c`. The latter reads one
slot of 32 bytes after the other and puts the entries into a list.

A slot that is empty or free, or that holds a part of a long name, is skipped: the record is freed
and `continue` goes to the test of the loop, which reads the first byte of the freed record. What
it finds there is up to the heap (`Heap.freed`), as are the bytes of a new record that a short
`pread` does not reach (`Heap.fresh`).

`examines_iff` says which slots are read, over all turns of the loop.
-/

set_option autoImplicit false

namespace OsTasks.Fat

open OsTasks.Lib

/-! ## Records -/

/-- `VFAT_DIRNAME_NULL`. -/
def vfatDirnameNull : UInt8 := 0x00

/-- `VFAT_DIRNAME_FREE`. -/
def vfatDirnameFree : UInt8 := 0xE5

/-- `VFAT_ATTR_LFN`. -/
def vfatAttrLfn : UInt8 := 0x0F

/-- `trim_nstr`, for the string of `n` bytes at `str`. -/
def trimNstr (mem : Memory) (str : Nat) : Nat → Memory
  | 0 => mem
  | i + 1 => if mem (str + i) = 0x20 then trimNstr (Function.update mem (str + i) 0) str i else mem

/-- The heap, as far as the loop can tell: the bytes of the record that is allocated in a turn, and
the first byte of the record that is freed in a turn, depending on the byte it had. -/
structure Heap where
  fresh : Nat → Memory
  freed : Nat → UInt8 → UInt8

/-- A heap that leaves freed records as they are. -/
def keepingHeap : Heap := ⟨fun _ _ => 0, fun _ byte => byte⟩

/-- The slot is skipped. -/
def isSkipped (record : Memory) : Bool :=
  record 0 = vfatDirnameNull || record 0 = vfatDirnameFree || record 11 = vfatAttrLfn

/-- The record of an entry, with the blanks at the end of name and extension replaced. -/
def trimRecord (record : Memory) : Memory := trimNstr (trimNstr record 0 8) 8 3

/-- The faults of the two readers. -/
inductive DirectoryFault where
  /-- There is no entry: `old` is still `NULL` when the list is ended. -/
  | nullDereference
  deriving DecidableEq, Repr

/-- The variables of the loop. `turn` counts the turns, and `slots` are the offsets of the `pread`s
so far. -/
structure RootScan where
  turn : Nat
  direntryOffset : UInt32
  slots : List UInt32
  entries : List VfatDirentry

/-- The variables before the loop of `vfat_read_root_directory`. -/
def RootScan.start (f : Vfat) : RootScan := ⟨0, f.rootOffset, [], []⟩

/-- The record after the `pread` of a turn. -/
def readRecord (dev : Device) (heap : Heap) (turn : Nat) (offset : UInt32) : Memory :=
  fill (heap.fresh turn) (dev.pread vfatDirentrySize offset.toNat)

/-- The byte that the test of the loop reads. -/
def testedByte (heap : Heap) (turn : Nat) (record : Memory) : UInt8 :=
  if isSkipped record then heap.freed turn (record 0) else trimRecord record 0

/-- One turn of the loop, with its test. -/
def rootTurn (dev : Device) (heap : Heap) (s : RootScan) :
    Except DirectoryFault (RootScan ⊕ RootScan) :=
  let record := readRecord dev heap s.turn s.direntryOffset
  let next : RootScan :=
    { turn := s.turn + 1
      direntryOffset := s.direntryOffset + 32
      slots := s.slots ++ [s.direntryOffset]
      entries :=
        if isSkipped record then s.entries
        else s.entries ++ [VfatDirentry.load (trimRecord record)] }
  if testedByte heap s.turn record ≠ 0 then .ok (.inl next) else .ok (.inr next)

/-- `vfat_read_root_directory`: the list of the entries. -/
def vfatReadRootDirectory (dev : Device) (heap : Heap) (fuel : Nat) (f : Vfat) :
    Option (Except DirectoryFault (List VfatDirentry)) :=
  (loop (rootTurn dev heap) fuel (RootScan.start f)).map fun result => do
    let s ← result
    if s.entries = [] then .error .nullDereference else .ok s.entries

/-! ## Trimming -/

/-- `trim_nstr` replaces the bytes from which on there are only blanks. -/
theorem trimNstr_eq (mem : Memory) (str n p : Nat) : trimNstr mem str n p =
    if str ≤ p ∧ p < str + n ∧ ∀ q, p ≤ q → q < str + n → mem q = 0x20 then 0 else mem p := by
  induction n generalizing mem with
  | zero => rw [trimNstr, if_neg (by omega)]
  | succ i ih =>
      rw [trimNstr]
      by_cases last : mem (str + i) = 0x20
      · rw [if_pos last, ih]
        by_cases here : p = str + i
        · have blank : ∀ q, p ≤ q → q < str + (i + 1) → mem q = 0x20 := by
            intro q low high
            rw [show q = str + i by omega]
            exact last
          rw [if_neg (by omega), if_pos ⟨by omega, by omega, blank⟩, here, Function.update_self]
        · have same : (str ≤ p ∧ p < str + i ∧
              ∀ q, p ≤ q → q < str + i → Function.update mem (str + i) 0 q = 0x20) ↔
                str ≤ p ∧ p < str + (i + 1) ∧ ∀ q, p ≤ q → q < str + (i + 1) → mem q = 0x20 := by
            constructor
            · rintro ⟨low, high, blank⟩
              refine ⟨low, by omega, fun q after before => ?_⟩
              by_cases there : q = str + i
              · rw [there]
                exact last
              · rw [← Function.update_of_ne there 0 mem]
                exact blank q after (by omega)
            · rintro ⟨low, high, blank⟩
              refine ⟨low, by omega, fun q after before => ?_⟩
              rw [Function.update_of_ne (by omega)]
              exact blank q after (by omega)
          rw [Function.update_of_ne here]
          exact if_congr same rfl rfl
      · rw [if_neg last, if_neg]
        rintro ⟨low, high, blank⟩
        exact last (blank (str + i) (by omega) (by omega))

/-- A byte of a record with the blanks at the end of name and extension replaced by NULs. -/
def blanksReplaced (record : Memory) : Memory := fun i =>
  if (i < 8 ∧ ∀ q, i ≤ q → q < 8 → record q = 0x20) ∨
      (8 ≤ i ∧ i < 11 ∧ ∀ q, i ≤ q → q < 11 → record q = 0x20) then 0
  else record i

theorem trimRecord_eq (record : Memory) : trimRecord record = blanksReplaced record := by
  funext i
  rw [trimRecord, trimNstr_eq, blanksReplaced]
  by_cases name : i < 8
  · have other : ¬ (8 ≤ i ∧ i < 8 + 3 ∧ ∀ q, i ≤ q → q < 8 + 3 → trimNstr record 0 8 q = 0x20) :=
      fun inside => by omega
    rw [if_neg other, trimNstr_eq]
    refine if_congr ?_ rfl rfl
    constructor
    · rintro ⟨-, -, blank⟩
      exact .inl ⟨name, fun q after less => blank q after (by omega)⟩
    · rintro (⟨-, blank⟩ | ⟨low, -⟩)
      · exact ⟨Nat.zero_le _, by omega, fun q after less => blank q after (by omega)⟩
      · omega
  · have kept : ∀ q, i ≤ q → trimNstr record 0 8 q = record q := by
      intro q after
      rw [trimNstr_eq, if_neg (by omega)]
    rw [kept i le_rfl]
    refine if_congr ?_ rfl rfl
    constructor
    · rintro ⟨low, high, blank⟩
      refine .inr ⟨low, by omega, fun q after less => ?_⟩
      rw [← kept q after]
      exact blank q after less
    · rintro (⟨low, -⟩ | ⟨low, high, blank⟩)
      · omega
      · refine ⟨low, by omega, fun q after less => ?_⟩
        rw [kept q after]
        exact blank q after less

theorem isSkipped_eq_false {record : Memory} :
    isSkipped record = false ↔ record 0 ≠ 0x00 ∧ record 0 ≠ 0xE5 ∧ record 11 ≠ 0x0F := by
  rw [isSkipped, Bool.or_eq_false_iff, Bool.or_eq_false_iff, decide_eq_false_iff_not,
    decide_eq_false_iff_not, decide_eq_false_iff_not, and_assoc]
  rfl

/-- The test stops the loop at a skipped record that reads as 0 after it has been freed, and at an
entry whose name is blank. -/
theorem testedByte_eq_zero {heap : Heap} {turn : Nat} {record : Memory} :
    testedByte heap turn record = 0 ↔
      if isSkipped record then heap.freed turn (record 0) = 0 else ∀ i < 8, record i = 0x20 := by
  rw [testedByte]
  cases skipped : isSkipped record with
  | true => rfl
  | false =>
      have live : record 0 ≠ 0 := (isSkipped_eq_false.mp skipped).1
      rw [if_neg Bool.false_ne_true, if_neg Bool.false_ne_true, trimRecord_eq, blanksReplaced]
      constructor
      · intro zero
        split at zero
        · next blank =>
            rcases blank with ⟨-, blank⟩ | ⟨low, -⟩
            · exact fun i less => blank i (Nat.zero_le i) less
            · omega
        · exact absurd zero live
      · intro blank
        exact if_pos (.inl ⟨by decide, fun q _ less => blank q less⟩)

/-! ## Which slots are read -/

/-- The loop ends after it has read these slots, in this order. -/
def Examines (dev : Device) (heap : Heap) (f : Vfat) (slots : List UInt32) : Prop :=
  ∃ fuel final, loop (rootTurn dev heap) fuel (RootScan.start f) = some (.ok final) ∧
    final.slots = slots

/-- The offset of the slot that is read in a turn. -/
def Vfat.slotOffset (f : Vfat) (turn : Nat) : UInt32 := f.rootOffset + UInt32.ofNat (32 * turn)

/-- The loop is left after a turn. -/
def Stops (dev : Device) (heap : Heap) (f : Vfat) (turn : Nat) : Prop :=
  testedByte heap turn (readRecord dev heap turn (f.slotOffset turn)) = 0

/-! ## The records of the loop -/

section Records

variable (dev : Device) (heap : Heap) (f : Vfat)

/-- The record that is read in a turn. -/
def slotRecord (t : Nat) : Memory := readRecord dev heap t (f.slotOffset t)

/-- The records that have been put into the list before a turn. -/
def linkedRecords (t : Nat) : List Memory :=
  (((List.range t).map (slotRecord dev heap f)).filter (!isSkipped ·)).map trimRecord

theorem linkedRecords_succ (t : Nat) : linkedRecords dev heap f (t + 1) =
    linkedRecords dev heap f t ++
      if isSkipped (slotRecord dev heap f t) then []
      else [trimRecord (slotRecord dev heap f t)] := by
  rw [linkedRecords, List.range_succ, List.map_append, List.filter_append, List.map_append]
  congr 1
  cases skipped : isSkipped (slotRecord dev heap f t) <;> simp [skipped]

/-- The records of later turns follow. -/
theorem linkedRecords_later {t u : Nat} (le : t ≤ u) : ∃ more,
    linkedRecords dev heap f u = linkedRecords dev heap f t ++ more ∧
      (more = [] ↔ ∀ v, t ≤ v → v < u → isSkipped (slotRecord dev heap f v) = true) := by
  induction u, le using Nat.le_induction with
  | base => exact ⟨[], (List.append_nil _).symm, fun _ v low high => by omega, fun _ => rfl⟩
  | succ u le ih =>
      obtain ⟨more, split, none⟩ := ih
      refine ⟨_, by rw [linkedRecords_succ, split, List.append_assoc], ?_⟩
      rw [List.append_eq_nil_iff, none]
      constructor
      · rintro ⟨before, last⟩ v low high
        rcases Nat.eq_or_lt_of_le (Nat.le_of_lt_succ high) with rfl | less
        · by_contra live
          rw [if_neg live] at last
          cases last
        · exact before v low less
      · intro all
        exact ⟨fun v low high => all v low (by omega), if_pos (all u le (by omega))⟩

end Records

/-! ## The turns of the loop -/

/-- The variables of the loop when a turn starts. -/
structure RootScan.AtTurn (f : Vfat) (s : RootScan) : Prop where
  offset : s.direntryOffset = f.slotOffset s.turn
  slots : s.slots = (List.range s.turn).map f.slotOffset

section Scan

variable {dev : Device} {heap : Heap} {f : Vfat} {s : RootScan}

theorem RootScan.start_atTurn (f : Vfat) : (RootScan.start f).AtTurn f :=
  ⟨(UInt32.add_zero f.rootOffset).symm, rfl⟩

theorem slotOffset_succ (f : Vfat) (turn : Nat) :
    f.slotOffset (turn + 1) = f.slotOffset turn + 32 := by
  rw [Vfat.slotOffset, Vfat.slotOffset, Nat.mul_succ, UInt32.ofNat_add, ← UInt32.add_assoc]
  rfl

/-- One turn reads the slot after the ones before, and the test decides how it goes on. -/
theorem RootScan.AtTurn.turn (start : s.AtTurn f) (dev : Device) (heap : Heap) :
    ∃ next : RootScan, next.AtTurn f ∧ next.turn = s.turn + 1 ∧
      next.entries = (if isSkipped (slotRecord dev heap f s.turn) then s.entries
        else s.entries ++ [VfatDirentry.load (trimRecord (slotRecord dev heap f s.turn))]) ∧
      (¬ Stops dev heap f s.turn → rootTurn dev heap s = .ok (.inl next)) ∧
        (Stops dev heap f s.turn → rootTurn dev heap s = .ok (.inr next)) := by
  obtain ⟨offset, slots⟩ := start
  rw [rootTurn, Stops, slotRecord, ← offset]
  generalize readRecord dev heap s.turn s.direntryOffset = record
  refine ⟨⟨s.turn + 1, s.direntryOffset + 32, s.slots ++ [s.direntryOffset],
    if isSkipped record then s.entries
    else s.entries ++ [VfatDirentry.load (trimRecord record)]⟩, ?_, rfl, rfl, ?_, ?_⟩
  · constructor
    case offset =>
      dsimp only
      rw [offset, slotOffset_succ]
    case slots =>
      dsimp only
      rw [slots, offset, List.range_succ, List.map_append]
      rfl
  · intro goesOn
    exact if_pos goesOn
  · intro stops
    exact if_neg (not_not.mpr stops)

/-- The state after `t` turns, with the entries that have been found. -/
def RootScan.HasRead (dev : Device) (heap : Heap) (f : Vfat) (t : Nat) (s : RootScan) : Prop :=
  s.turn = t ∧ s.AtTurn f ∧ s.entries = (linkedRecords dev heap f t).map VfatDirentry.load

theorem RootScan.start_hasRead : (RootScan.start f).HasRead dev heap f 0 :=
  ⟨rfl, RootScan.start_atTurn f, rfl⟩

/-- Runs with different heaps come to the same state when they have found the same entries. -/
theorem RootScan.HasRead.eq_iff {heap' : Heap} {t : Nat} {s' : RootScan}
    (first : s.HasRead dev heap f t) (second : s'.HasRead dev heap' f t) :
    s = s' ↔ (linkedRecords dev heap f t).map VfatDirentry.load =
      (linkedRecords dev heap' f t).map VfatDirentry.load := by
  obtain ⟨turn, start, entries⟩ := first
  obtain ⟨turn', start', entries'⟩ := second
  rw [← entries, ← entries']
  constructor
  · rintro rfl
    rfl
  · intro same
    have offset : s.direntryOffset = s'.direntryOffset := by
      rw [start.offset, start'.offset, turn, turn']
    have slots : s.slots = s'.slots := by rw [start.slots, start'.slots, turn, turn']
    cases s
    cases s'
    congr
    exact turn.trans turn'.symm

theorem rootTurn_numbered (dev : Device) (heap : Heap) (f : Vfat) :
    Numbered (rootTurn dev heap) (RootScan.HasRead dev heap f) (Stops dev heap f) := by
  rintro t s ⟨rfl, start, entries⟩
  obtain ⟨next, start', turn', entries', again, done⟩ := start.turn dev heap
  refine ⟨next, ⟨turn', start', ?_⟩, again, done⟩
  rw [entries', entries, linkedRecords_succ, List.map_append]
  split
  · exact (List.append_nil _).symm
  · rfl

/-- The loop reads slot after slot, up to the first turn after which it stops. -/
theorem examines_iff {slots : List UInt32} : Examines dev heap f slots ↔
    ∃ last, (∀ t < last, ¬ Stops dev heap f t) ∧ Stops dev heap f last ∧
      slots = (List.range (last + 1)).map f.slotOffset := by
  have numbered := rootTurn_numbered dev heap f
  constructor
  · rintro ⟨fuel, final, ended, rfl⟩
    obtain ⟨last, -, before, stops, turn, after, -⟩ := numbered.left RootScan.start_hasRead ended
    refine ⟨last, fun t => before t (Nat.zero_le t), stops, ?_⟩
    rw [after.slots, turn]
  · rintro ⟨last, before, stops, rfl⟩
    obtain ⟨fuel, final, ended, turn, after, -⟩ :=
      numbered.ends RootScan.start_hasRead before stops
    refine ⟨fuel, final, ended, ?_⟩
    rw [after.slots, turn]

end Scan

end OsTasks.Fat
