import OsTasks.Lib.Integers

/-!
# The device and its records

The partition as the file system sees it: a number of bytes that `pread` reads, and the packed
little-endian records on it, the boot sector and the directory entries of `vfat.c`.

Memory that a record is read into keeps the bytes that a short `pread` does not reach (`fill`).
-/

set_option autoImplicit false

namespace OsTasks.Fat

/-! ## Bytes -/

/-- The bytes from an address on. -/
abbrev Memory := Nat → UInt8

/-- Store bytes at the beginning of the memory. -/
def fill (mem : Memory) (bytes : List UInt8) : Memory := fun i => bytes.getD i (mem i)

/-- A little-endian `uint16_t`. -/
def load16 (mem : Memory) (p : Nat) : UInt16 :=
  UInt16.ofNat ((mem p).toNat + 2 ^ 8 * (mem (p + 1)).toNat)

/-- A little-endian `uint32_t`. -/
def load32 (mem : Memory) (p : Nat) : UInt32 :=
  UInt32.ofNat ((mem p).toNat + 2 ^ 8 * (mem (p + 1)).toNat + 2 ^ 16 * (mem (p + 2)).toNat +
    2 ^ 24 * (mem (p + 3)).toNat)

/-- The memory of a `uint32_t`. -/
def bytes32 (x : UInt32) : Memory := fun i => UInt8.ofNat (x.toNat / 2 ^ (8 * i))

/-! ## The device -/

/-- A block device: its size and its bytes. -/
structure Device where
  size : Nat
  byte : Memory

/-- The bytes that `pread` stores. It fails on a negative offset and on a count that is negative
as an `ssize_t`, and it reads nothing behind the end of the device. -/
def Device.pread (dev : Device) (count offset : Int) : List UInt8 :=
  if count < 0 ∨ offset < 0 then []
  else
    (List.range (min count.toNat (dev.size - offset.toNat))).map fun i =>
      dev.byte (offset.toNat + i)

/-- The bytes of a part of the device. -/
def Device.slice (dev : Device) (address count : Nat) : List UInt8 :=
  (List.range count).map fun i => dev.byte (address + i)

section Pread

variable {dev : Device}

theorem pread_length_le (count offset : Int) :
    (dev.pread count offset).length ≤ count.toNat := by
  unfold Device.pread
  split
  · exact Nat.zero_le _
  · rw [List.length_map, List.length_range]
    exact Nat.min_le_left _ _

theorem slice_length (address count : Nat) : (dev.slice address count).length = count := by
  rw [Device.slice, List.length_map, List.length_range]

theorem slice_take {count less : Nat} (le : less ≤ count) (address : Nat) :
    (dev.slice address count).take less = dev.slice address less := by
  rw [Device.slice, ← List.map_take, List.take_range, Nat.min_eq_left le]
  rfl

/-- A `pread` inside of the device. -/
theorem pread_inside {count offset : Nat} (inside : offset + count ≤ dev.size) :
    dev.pread count offset = dev.slice offset count := by
  have counted : min count (dev.size - offset) = count := by omega
  unfold Device.pread
  rw [if_neg (by omega), Int.toNat_natCast, Int.toNat_natCast, counted]
  rfl

theorem fill_pread {mem : Memory} {count offset : Nat} (inside : offset + count ≤ dev.size)
    {i : Nat} (within : i < count) : fill mem (dev.pread count offset) i = dev.byte (offset + i) := by
  rw [pread_inside inside, fill, Device.slice, List.getD_eq_getElem?_getD, List.getElem?_map,
    List.getElem?_range within]
  rfl

/-- A `uint32_t` that is read as a whole. -/
theorem load32_pread {mem : Memory} {offset : Nat} (inside : offset + 4 ≤ dev.size) :
    load32 (fill mem (dev.pread 4 offset)) 0 = load32 dev.byte offset := by
  have byte : ∀ i < 4, fill mem (dev.pread 4 offset) i = dev.byte (offset + i) :=
    fun i within => @fill_pread dev mem 4 offset inside i within
  unfold load32
  rw [byte 0 (by decide), byte (0 + 1) (by decide), byte (0 + 2) (by decide),
    byte (0 + 3) (by decide)]
  rfl

end Pread

/-! ## Records -/

/-- `struct vfat_super`: the fields that are used. -/
structure VfatSuper where
  bytsPerSec : UInt16
  secPerClus : UInt8
  rsvdSecCnt : UInt16
  numFATs : UInt8
  rootEntCnt : UInt16
  totSec16 : UInt16
  fatSz16 : UInt16
  totSec32 : UInt32
  fatSz32 : UInt32
  rootClus : UInt32
  sig : UInt16
  deriving DecidableEq, Repr

/-- `sizeof(struct vfat_super)`. -/
def vfatSuperSize : Nat := 512

/-- The fields at their offsets in the packed structure. -/
def VfatSuper.load (mem : Memory) : VfatSuper where
  bytsPerSec := load16 mem 11
  secPerClus := mem 13
  rsvdSecCnt := load16 mem 14
  numFATs := mem 16
  rootEntCnt := load16 mem 17
  totSec16 := load16 mem 19
  fatSz16 := load16 mem 22
  totSec32 := load32 mem 32
  fatSz32 := load32 mem 36
  rootClus := load32 mem 44
  sig := load16 mem 510

/-- `VFAT_SIGNATURE`. -/
def vfatSignature : UInt16 := 0xAA55

/-- `VFAT_EOC`: the end marks of a chain start here. -/
def vfatEoc : UInt32 := 0x0FFFFFF8

/-- `struct vfat_direntry`. -/
structure VfatDirentry where
  name : List UInt8
  ext : List UInt8
  attr : UInt8
  fstClusHI : UInt16
  fstClusLO : UInt16
  fileSize : UInt32
  deriving DecidableEq, Repr

/-- `sizeof(struct vfat_direntry)`. -/
def vfatDirentrySize : Nat := 32

/-- The fields at their offsets in the packed structure. -/
def VfatDirentry.load (mem : Memory) : VfatDirentry where
  name := (List.range 8).map mem
  ext := (List.range 3).map fun i => mem (8 + i)
  attr := mem 11
  fstClusHI := load16 mem 20
  fstClusLO := load16 mem 26
  fileSize := load32 mem 28

/-- `VFAT_DIRENTRY_CLUSTER`. -/
def VfatDirentry.cluster (record : VfatDirentry) : UInt32 :=
  record.fstClusHI.toUInt32 <<< 16 ||| record.fstClusLO.toUInt32

end OsTasks.Fat
