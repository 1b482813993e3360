import OsTasks.Fat.Device

/-!
# Mounting

A translation of `vfat_init` of `vfat.c`: it reads the boot sector, computes the geometry of the
volume and rejects volumes that are not FAT32. All of the geometry is computed in `uint32_t`,
and so it is here.

`Mounted dev f` says that `f` is the state of a file system mounted on the device, and
`Mounted.geometry` what that says about its fields.
-/

set_option autoImplicit false

namespace OsTasks.Fat

/-- `struct vfat`: the fields that the mount and the reads of files use. -/
structure Vfat where
  bootSector : VfatSuper
  rootDirSectors : UInt32
  fatSz : UInt32
  firstDataSector : UInt32
  totSec : UInt32
  dataSec : UInt32
  countOfClusters : UInt32
  currentDirentry : Memory
  currentClusterNumber : UInt32
  nextClusterNumber : UInt32

/-! ## Geometry -/

namespace VfatSuper

variable (bs : VfatSuper)

/-- Computed in `int`, where it does not overflow. -/
def rootDirSectors : UInt32 :=
  UInt32.ofNat ((bs.rootEntCnt.toNat * 32 + (bs.bytsPerSec.toNat - 1)) / bs.bytsPerSec.toNat)

/-- `BPB_FATSz16`, or `BPB_FATSz32` when that is 0. -/
def fatSz : UInt32 := if bs.fatSz16 ≠ 0 then bs.fatSz16.toUInt32 else bs.fatSz32

/-- The sectors before the data: the reserved ones, the FATs and the root directory. -/
def overhead : UInt32 :=
  bs.rsvdSecCnt.toUInt32 + bs.numFATs.toUInt32 * bs.fatSz + bs.rootDirSectors

/-- `BPB_TotSec16`, or `BPB_TotSec32` when that is 0. -/
def totSec : UInt32 := if bs.totSec16 ≠ 0 then bs.totSec16.toUInt32 else bs.totSec32

/-- The sectors after the overhead, modulo `2^32`. -/
def dataSec : UInt32 := bs.totSec - bs.overhead

/-- The whole clusters in the data sectors. -/
def countOfClusters : UInt32 := bs.dataSec / bs.secPerClus.toUInt32

end VfatSuper

/-- `vfat_init` does not return. -/
inductive InitStop where
  /-- A division by 0. -/
  | fault
  | fat12
  | fat16
  | badSignature (sig : UInt16)
  deriving DecidableEq, Repr

/-- The text that `err` prints. -/
def InitStop.text : InitStop → Option String
  | .fault => none
  | .fat12 => some "Error: Disk in FAT12 not implemented yet..."
  | .fat16 => some "Error: Disk in FAT16 not implemented yet..."
  | .badSignature sig => some ("Error in FAT signature, 0x" ++ hex sig ++ " instead of 0x" ++
      hex vfatSignature)
where
  hex (x : UInt16) : String := (String.ofList (Nat.toDigits 16 x.toNat)).toUpper

/-- The assignments of `vfat_init` between the read of the boot sector and its tests. -/
def Vfat.setGeometry (f : Vfat) (bs : VfatSuper) : Vfat :=
  { f with
    bootSector := bs
    rootDirSectors := bs.rootDirSectors
    fatSz := bs.fatSz
    firstDataSector := bs.overhead
    totSec := bs.totSec
    dataSec := bs.dataSec
    countOfClusters := bs.countOfClusters }

/-- `vfat_init`. The boot sector is read into fresh memory from the heap. -/
def vfatInit (dev : Device) (heap : Memory) (f : Vfat) : Except InitStop Vfat :=
  let bs := VfatSuper.load (fill heap (dev.pread vfatSuperSize 0))
  if bs.bytsPerSec = 0 ∨ bs.secPerClus = 0 then .error .fault
  else
    let f := f.setGeometry bs
    if f.countOfClusters < 4085 then .error .fat12
    else if f.countOfClusters < 65525 then .error .fat16
    else if bs.sig ≠ vfatSignature then .error (.badSignature bs.sig)
    else .ok f

/-- What `vfat_init` accepts, and the state that it leaves then. -/
theorem vfatInit_eq_ok_iff {dev : Device} {heap : Memory} {f f' : Vfat} :
    vfatInit dev heap f = .ok f' ↔
      ∃ bs, bs = VfatSuper.load (fill heap (dev.pread vfatSuperSize 0)) ∧ f' = f.setGeometry bs ∧
        bs.bytsPerSec ≠ 0 ∧ bs.secPerClus ≠ 0 ∧ 65525 ≤ bs.countOfClusters ∧
          bs.sig = vfatSignature := by
  rw [vfatInit]
  generalize VfatSuper.load (fill heap (dev.pread vfatSuperSize 0)) = bs
  dsimp only [Vfat.setGeometry]
  constructor
  · intro init
    split at init
    · cases init
    · next nonzero =>
        obtain ⟨bytsPerSec, secPerClus⟩ := not_or.mp nonzero
        split at init
        · cases init
        · split at init
          · cases init
          · next clusters =>
              split at init
              · cases init
              · next sig =>
                  cases init
                  exact ⟨bs, rfl, rfl, bytsPerSec, secPerClus, UInt32.not_lt.mp clusters,
                    not_not.mp sig⟩
  · rintro ⟨bs, rfl, rfl, bytsPerSec, secPerClus, clusters, sig⟩
    have many : ∀ bound : UInt32, bound ≤ 65525 → ¬ bs.countOfClusters < bound :=
      fun bound small => UInt32.not_lt.mpr (UInt32.le_trans small clusters)
    rw [if_neg (not_or.mpr ⟨bytsPerSec, secPerClus⟩), if_neg (many 4085 (by decide)),
      if_neg (many 65525 (by decide)), if_neg (not_not.mpr sig)]

/-- The state of a file system that is mounted on the device. -/
def Mounted (dev : Device) (f : Vfat) : Prop := ∃ heap f₀, vfatInit dev heap f₀ = .ok f

/-- What a mounted file system knows about its volume. -/
structure Geometry (f : Vfat) : Prop where
  bytsPerSec : f.bootSector.bytsPerSec ≠ 0
  secPerClus : f.bootSector.secPerClus ≠ 0
  rootDirSectors : f.rootDirSectors = f.bootSector.rootDirSectors
  fatSz : f.fatSz = f.bootSector.fatSz
  firstDataSector : f.firstDataSector = f.bootSector.overhead
  totSec : f.totSec = f.bootSector.totSec
  dataSec : f.dataSec = f.bootSector.dataSec
  countOfClusters : f.countOfClusters = f.bootSector.countOfClusters
  fat32 : 65525 ≤ f.countOfClusters
  sig : f.bootSector.sig = vfatSignature

theorem Mounted.geometry {dev : Device} {f : Vfat} (mounted : Mounted dev f) : Geometry f := by
  obtain ⟨heap, f₀, init⟩ := mounted
  obtain ⟨bs, -, rfl, bytsPerSec, secPerClus, clusters, sig⟩ := vfatInit_eq_ok_iff.mp init
  exact ⟨bytsPerSec, secPerClus, rfl, rfl, rfl, rfl, rfl, rfl, clusters, sig⟩

/-! ## Addresses -/

/-- The number of bytes of a cluster. -/
def Vfat.clusterSize (f : Vfat) : Nat :=
  f.bootSector.bytsPerSec.toNat * f.bootSector.secPerClus.toNat

theorem Geometry.clusterSize_pos {f : Vfat} (geometry : Geometry f) : 0 < f.clusterSize := by
  refine Nat.mul_pos (Nat.pos_of_ne_zero fun zero => ?_) (Nat.pos_of_ne_zero fun zero => ?_)
  · exact geometry.bytsPerSec (UInt16.toNat_inj.mp zero)
  · exact geometry.secPerClus (UInt8.toNat_inj.mp zero)

/-- `ComputeFirstSectorOfCluster`. -/
def Vfat.computeFirstSectorOfCluster (f : Vfat) (n : UInt32) : UInt32 :=
  f.firstDataSector + (n - 2) * f.bootSector.secPerClus.toUInt32

/-- The address of the data of a cluster, as the code computes it. -/
def Vfat.dataStart (f : Vfat) (n : UInt32) : UInt32 :=
  f.bootSector.bytsPerSec.toUInt32 * f.computeFirstSectorOfCluster n

/-- The address of the data of a cluster, over the unbounded integers. -/
def Vfat.clusterAddress (f : Vfat) (n : UInt32) : Nat :=
  (f.firstDataSector.toNat + (n.toNat - 2) * f.bootSector.secPerClus.toNat) *
    f.bootSector.bytsPerSec.toNat

/-- The code computes the address modulo 2^32. -/
theorem dataStart_toNat (f : Vfat) {n : UInt32} (data : 2 ≤ n) :
    (f.dataStart n).toNat = f.clusterAddress n % 2 ^ 32 := by
  have index : (n - 2).toNat = n.toNat - 2 := UInt32.toNat_sub_of_le _ _ data
  unfold Vfat.dataStart Vfat.computeFirstSectorOfCluster Vfat.clusterAddress
  rw [UInt32.toNat_mul, UInt32.toNat_add, UInt32.toNat_mul, index, UInt16.toNat_toUInt32,
    UInt8.toNat_toUInt32, Nat.mul_mod_mod, Nat.mul_comm]
  conv_lhs => rw [Nat.mul_mod, Nat.add_mod_mod, ← Nat.mul_mod]

theorem dataStart_le (f : Vfat) {n : UInt32} (data : 2 ≤ n) :
    (f.dataStart n).toNat ≤ f.clusterAddress n := by
  rw [dataStart_toNat f data]
  exact Nat.mod_le _ _

end OsTasks.Fat
